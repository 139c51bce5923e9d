import Dormouse.BurrowConnects
/-!
# BurrowSessions — where an established session comes from

Four invariants of every run.  `Capped`: the bounds.  `Authorized`: the list of Clients stands behind each session.
`Proven`: each session comes from one promotion, whose connection was asked for its challenge once, while the issuer held
it.  And each promotion was of a connection pending at the time, under the list of that time.
-/
namespace Dormouse
namespace Burrow
namespace BurrowRuntime

/-! ## The bounds -/

variable {C : PresenceCrypto} {K : Config} {s s' : BurrowRuntime}

theorem Capped.decides {a : Asked} (h : Capped s) (hd : Decides C K s a s') : Capped s' := by
  cases hd with
  | refused hst hgone => exact h.steady hst
  | promoted hst hacl hv hc hπ hl hs he hp => exact (h.steady hst).promotes hp

theorem Capped.connects {a a' : Option Asked} (h : Capped s) (hc : Connects C K s a s' a') : Capped s' := by
  have hconsumed : ∀ {t : BurrowRuntime} (c : PendingConnectionSession) (now : Int), Steady s t →
      Capped (t.consumeChallenge c now).1 := fun c now hst =>
    ⟨(h.steady hst).filled, (h.steady hst).single, (h.steady hst).sessions, (h.steady hst).connections,
      (h.steady hst).pairings⟩
  cases hc with
  | steady hst => exact h.steady hst
  | paired hst id p hroom => exact (h.steady hst).installPairing hroom id p
  | connected hst id c hr hroom => exact (h.steady hst).installConnection hroom id c
  | asked hst hc hst' => exact (hconsumed _ _ hst).steady hst'
  | decided hd => exact h.decides hd
  | askedDecided hst hacl hc hd => exact (hconsumed _ _ hst).decides hd

/-! ## The list of Clients -/

def Authorized (s : BurrowRuntime) : Prop := ∀ id e, (s.stateOf id).established = some e → e.AuthorizedBy s.acl

theorem Authorized.steady (h : Authorized s) (hs : Steady s s') : Authorized s' := by
  intro id e' he'
  obtain ⟨e, he, hsame⟩ := hs.established id e' he'
  exact hs.authorized id e' he' (hsame.authorizedBy.1 (h id e he))

theorem Authorized.decides {a : Asked} (h : Authorized s) (hd : Decides C K s a s') : Authorized s' := by
  cases hd with
  | refused hst hgone => exact h.steady hst
  | promoted hst hacl hv hc hπ hl hs he hp =>
    rename_i t π e
    intro id e' he'
    rw [hp.acl]
    by_cases hid : id = a.clientId
    · rw [hid, hp.own] at he'
      obtain rfl := Option.some.inj he'
      obtain ⟨-, -, hkey, hpass⟩ := he
      exact ⟨π.record, hl ▸ hs.active, hpass.symm, hs.client.trans hkey.symm⟩
    · exact (h.steady hst) id e' (hp.others id e' hid he').1

theorem Authorized.connects {a a' : Option Asked} (h : Authorized s) (hc : Connects C K s a s' a') : Authorized s' := by
  have hconsumed : ∀ {t : BurrowRuntime} (c : PendingConnectionSession) (now : Int), Steady s t →
      Authorized (t.consumeChallenge c now).1 := fun _ _ hst id e he => (h.steady hst) id e he
  cases hc with
  | steady hst => exact h.steady hst
  | paired hst id p hroom =>
    rename_i t
    intro id' e' he'
    rw [stateOf_installPairing] at he'
    refine (h.steady hst) id' e' ?_
    split at he'
    · rename_i hid
      rw [hid]
      exact he'
    · exact he'
  | connected hst id c hr hroom =>
    intro id' e' he'
    rw [stateOf_installConnection] at he'
    refine (h.steady hst) id' e' ?_
    split at he'
    · rename_i hid
      rw [hid]
      exact he'
    · exact he'
  | asked hst hc hst' => exact (hconsumed _ _ hst).steady hst'
  | decided hd => exact h.decides hd
  | askedDecided hst hacl hc hd => exact (hconsumed _ _ hst).decides hd

/-! ## The challenges -/

/-- The connection was asked for its challenge once; where the answer was that it is valid, the issuer held it, and it
had not expired. -/
def Consumed (s : BurrowRuntime) (c : PendingConnectionSession) (valid : Bool) : Prop :=
  ∃ held now, s.trace.filter (Event.consumedFrom c.ref) = [.consumed c.ref c.challenge held now] ∧
    (valid = true → ∃ expiresAt, held = some expiresAt ∧ now < expiresAt)

/-- **Each session comes from one promotion**, of a connection that was asked for its challenge once. -/
structure Proven (C : PresenceCrypto) (K : Config) (s : BurrowRuntime) (a : Option Asked) : Prop where
  fresh    : ∀ id c, (s.stateOf id).connection = some c → c.ref < s.nextRef
  apart    : ∀ id id' c c', (s.stateOf id).connection = some c → (s.stateOf id').connection = some c' →
    c.ref = c'.ref → id = id'
  issued   : ∀ ref, s.nextRef ≤ ref → s.trace.filter (Event.consumedFrom ref) = []
  unasked  : ∀ id c, (s.stateOf id).connection = some c → (∀ q, a = some q → q.connection.ref ≠ c.ref) →
    s.trace.filter (Event.consumedFrom c.ref) = []
  asked    : ∀ q, a = some q → ∀ id c, (s.stateOf id).connection = some c → c.ref = q.connection.ref →
    id = q.clientId ∧ c.Same q.connection ∧ s.Consumed q.connection q.valid
  promoted : ∀ π, .promoted π ∈ s.trace → π.connection.ref < s.nextRef ∧
    (∀ id c, (s.stateOf id).connection = some c → c.ref ≠ π.connection.ref) ∧ s.Consumed π.connection true ∧ π.Shown C K
  sessions : ∀ id e, (s.stateOf id).established = some e → ∃ π, .promoted π ∈ s.trace ∧ e.Of π

section
variable {C : PresenceCrypto} {K : Config} {s s' : BurrowRuntime}

theorem filter_consumedFrom_append {trace l : List Event} {ref : Ref} (hl : ∀ e ∈ l, Event.consumedFrom ref e = false) :
    (trace ++ l).filter (Event.consumedFrom ref) = trace.filter (Event.consumedFrom ref) := by
  have hnil : l.filter (Event.consumedFrom ref) = [] :=
    List.filter_eq_nil_iff.2 (fun e he => by rw [hl e he]; exact Bool.false_ne_true)
  rw [List.filter_append, hnil, List.append_nil]

theorem Consumed.extend {c : PendingConnectionSession} {valid : Bool} (h : s.Consumed c valid) {l : List Event}
    (ht : s'.trace = s.trace ++ l) (hl : ∀ e ∈ l, e.consumedFrom c.ref = false) : s'.Consumed c valid := by
  obtain ⟨held, now, hf, hv⟩ := h
  refine ⟨held, now, ?_, hv⟩
  rw [ht, filter_consumedFrom_append hl, hf]

theorem Proven.steady {a : Option Asked} (h : Proven C K s a) (hs : Steady s s') : Proven C K s' a := by
  obtain ⟨l, hl, hpro, hcon⟩ := hs.trace
  -- nothing is logged for a connection that stays, nor for one that is not there
  have hstays : ∀ id c, (s'.stateOf id).connection = some c → ∀ e ∈ l, e.consumedFrom c.ref = false := by
    intro id c' hc' e he
    refine Bool.eq_false_iff.2 (fun htrue => ?_)
    obtain ⟨c, hc, hsame⟩ := hs.connection id c' hc'
    obtain ⟨id₀, c₀, hc₀, href, hgone⟩ := hcon e he _ htrue
    obtain rfl := h.apart id₀ id c₀ c hc₀ hc (href.trans hsame.ref_eq.symm)
    rw [hc'] at hgone
    cases hgone
  have habsent : ∀ ref, (∀ id c, (s.stateOf id).connection = some c → c.ref ≠ ref) → ∀ e ∈ l, e.consumedFrom ref = false := by
    intro ref hnot e he
    refine Bool.eq_false_iff.2 (fun htrue => ?_)
    obtain ⟨id₀, c₀, hc₀, href, -⟩ := hcon e he ref htrue
    exact hnot id₀ c₀ hc₀ href
  have hkeeps : ∀ ref, (∀ e ∈ l, e.consumedFrom ref = false) →
      s'.trace.filter (Event.consumedFrom ref) = s.trace.filter (Event.consumedFrom ref) := by
    intro ref hnone
    rw [hl, filter_consumedFrom_append hnone]
  refine
    { fresh := fun id c' hc' => ?_, apart := fun id id' c₁ c₂ h₁ h₂ href => ?_, issued := fun ref href => ?_
      unasked := fun id c' hc' hq => ?_, asked := fun q hq id c' hc' href => ?_, promoted := fun π hπ => ?_
      sessions := fun id e' he' => ?_ }
  · obtain ⟨c, hc, hsame⟩ := hs.connection id c' hc'
    rw [← hsame.ref_eq]
    exact (h.fresh id c hc).trans_le hs.nextRef
  · obtain ⟨c, hc, hsame⟩ := hs.connection id c₁ h₁
    obtain ⟨c', hc', hsame'⟩ := hs.connection id' c₂ h₂
    exact h.apart id id' c c' hc hc' (hsame.ref_eq.trans (href.trans hsame'.ref_eq.symm))
  · have hle := hs.nextRef.trans href
    rw [hkeeps ref (habsent ref (fun id c hc => ((h.fresh id c hc).trans_le hle).ne))]
    exact h.issued ref hle
  · obtain ⟨c, hc, hsame⟩ := hs.connection id c' hc'
    rw [hkeeps _ (hstays id c' hc'), ← hsame.ref_eq]
    exact h.unasked id c hc (fun q hqa => hsame.ref_eq ▸ hq q hqa)
  · obtain ⟨c, hc, hsame⟩ := hs.connection id c' hc'
    obtain ⟨hid, hsame', hcons⟩ := h.asked q hq id c hc (hsame.ref_eq.trans href)
    refine ⟨hid, ?_, hcons.extend hl (href ▸ hstays id c' hc')⟩
    unfold PendingConnectionSession.Same at hsame hsame' ⊢
    rw [hsame] at hsame'
    cases c'
    cases hsame'
    rfl
  · rw [hl, List.mem_append] at hπ
    rcases hπ with hπ | hπ
    · obtain ⟨hlt, hnot, hcons, hshown⟩ := h.promoted π hπ
      refine ⟨hlt.trans_le hs.nextRef, fun id c' hc' => ?_, hcons.extend hl (habsent _ hnot), hshown⟩
      obtain ⟨c, hc, hsame⟩ := hs.connection id c' hc'
      rw [← hsame.ref_eq]
      exact hnot id c hc
    · exact absurd hπ (hpro π)
  · obtain ⟨e, he, hsame⟩ := hs.established id e' he'
    obtain ⟨π, hπ, hof⟩ := h.sessions id e he
    exact ⟨π, by rw [hl]; exact List.mem_append_left _ hπ, hof.same hsame⟩

theorem Proven.consume {id : ClientId} {c : PendingConnectionSession} (h : Proven C K s none)
    (hc : (s.stateOf id).connection = some c) (now : Int) :
    Proven C K (s.consumeChallenge c now).1 (some ⟨id, c, (s.consumeChallenge c now).2⟩) := by
  generalize hheld : s.challenges.pending.get c.challenge = held
  have ht : (s.consumeChallenge c now).1.trace = s.trace ++ [.consumed c.ref c.challenge held now] := by
    rw [← hheld]
    rfl
  have hnil := h.unasked id c hc (fun _ hq => nomatch hq)
  have hother : ∀ ref, ref ≠ c.ref → (s.consumeChallenge c now).1.trace.filter (Event.consumedFrom ref) =
      s.trace.filter (Event.consumedFrom ref) := by
    intro ref hne
    rw [ht, filter_consumedFrom_append (fun e he => ?_)]
    rw [List.mem_singleton.1 he]
    exact beq_eq_false_iff_ne.2 hne.symm
  have hvalid : (s.consumeChallenge c now).2 = true → ∃ expiresAt, held = some expiresAt ∧ now < expiresAt := by
    intro hv
    have hv : (s.challenges.consume c.challenge now).2 = true := hv
    unfold ChallengeIssuer.consume at hv
    rw [hheld] at hv
    cases held with
    | none => cases hv
    | some expiresAt => exact ⟨expiresAt, rfl, of_decide_eq_true hv⟩
  refine
    { fresh := h.fresh, apart := h.apart, issued := fun ref href => ?_, unasked := fun id' c' hc' hq => ?_
      asked := fun q hq id' c' hc' href => ?_, promoted := fun π hπ => ?_, sessions := fun id' e he => ?_ }
  · rw [hother ref (((h.fresh id c hc).trans_le href).ne')]
    exact h.issued ref href
  · rw [hother c'.ref (fun heq => hq _ rfl heq.symm)]
    exact h.unasked id' c' hc' (fun _ hqa => nomatch hqa)
  · obtain rfl := Option.some.inj hq
    obtain rfl := h.apart id' id c' c hc' hc href
    have hcc : (s.stateOf id').connection = some c' := hc'
    rw [hc] at hcc
    obtain rfl := Option.some.inj hcc
    refine ⟨rfl, .refl c, held, now, ?_, hvalid⟩
    rw [ht, List.filter_append, hnil, List.nil_append]
    exact List.filter_cons_of_pos (by simp [Event.consumedFrom])
  · rw [ht, List.mem_append, List.mem_singleton] at hπ
    rcases hπ with hπ | hπ
    · obtain ⟨hlt, hnot, hcons, hshown⟩ := h.promoted π hπ
      refine ⟨hlt, hnot, hcons.extend ht (fun e he => ?_), hshown⟩
      rw [List.mem_singleton.1 he]
      exact beq_eq_false_iff_ne.2 (hnot id c hc)
    · cases hπ
  · obtain ⟨π, hπ, hof⟩ := h.sessions id' e he
    exact ⟨π, by rw [ht]; exact List.mem_append_left _ hπ, hof⟩

variable {q : Asked}

theorem Proven.resolve (h : Proven C K s (some q))
    (hgone : ∀ c, (s.stateOf q.clientId).connection = some c → c.ref ≠ q.connection.ref) : Proven C K s none where
  fresh := h.fresh
  apart := h.apart
  issued := h.issued
  unasked id c hc _ := by
    refine h.unasked id c hc (fun q' hq' heq => ?_)
    obtain rfl := Option.some.inj hq'
    obtain ⟨rfl, -⟩ := h.asked q rfl id c hc heq.symm
    exact hgone c hc heq.symm
  asked _ hq := nomatch hq
  promoted := h.promoted
  sessions := h.sessions

theorem Proven.promotes {π : Promotion} {e : EstablishedSession} (h : Proven C K s (some q)) (hv : q.valid = true)
    (hc : ∃ c, (s.stateOf q.clientId).connection = some c ∧ c.ref = q.connection.ref) (hπ : π.connection = q.connection)
    (hs : π.Shown C K) (he : e.Of π) (hp : Promotes s s' q.clientId π e) :
    Proven C K s' none := by
  obtain ⟨c₀, hc₀, href₀⟩ := hc
  obtain ⟨-, -, hcons₀⟩ := h.asked q rfl q.clientId c₀ hc₀ href₀
  have hquiet : ∀ ref, ∀ e ∈ [Event.promoted π], e.consumedFrom ref = false := by
    intro ref e he
    rw [List.mem_singleton.1 he]
    rfl
  have hfilter : ∀ ref, s'.trace.filter (Event.consumedFrom ref) = s.trace.filter (Event.consumedFrom ref) := by
    intro ref
    rw [hp.trace, filter_consumedFrom_append (hquiet ref)]
  have hold : ∀ id c, (s'.stateOf id).connection = some c → id ≠ q.clientId ∧ (s.stateOf id).connection = some c := by
    intro id c hc
    rw [hp.connection] at hc
    split at hc
    · cases hc
    · exact ⟨by assumption, hc⟩
  have hlater : ∀ {ref : Ref}, ref < s.nextRef → ref < s'.nextRef := fun hlt => by
    rw [hp.nextRef]
    exact hlt.trans (Nat.lt_succ_self _)
  have hnot : ∀ id c, (s'.stateOf id).connection = some c → c.ref ≠ q.connection.ref := by
    intro id c hc heq
    obtain ⟨hne, hc⟩ := hold id c hc
    exact hne (h.asked q rfl id c hc heq).1
  refine
    { fresh := fun id c hc => hlater (h.fresh id c (hold id c hc).2)
      apart := fun id id' c c' hc hc' => h.apart id id' c c' (hold id c hc).2 (hold id' c' hc').2
      issued := fun ref href => ?_, unasked := fun id c hc _ => ?_, asked := fun _ hq => (nomatch hq)
      promoted := fun π' hπ' => ?_, sessions := fun id e' he' => ?_ }
  · rw [hfilter]
    rw [hp.nextRef] at href
    exact h.issued ref ((Nat.le_succ _).trans href)
  · rw [hfilter]
    refine h.unasked id c (hold id c hc).2 (fun q' hq' heq => ?_)
    obtain rfl := Option.some.inj hq'
    exact hnot id c hc heq.symm
  · rw [hp.trace, List.mem_append, List.mem_singleton] at hπ'
    rcases hπ' with hπ' | hπ'
    · obtain ⟨hlt, hno, hcons, hshown⟩ := h.promoted π' hπ'
      exact ⟨hlater hlt, fun id c hc => hno id c (hold id c hc).2, hcons.extend hp.trace (hquiet _), hshown⟩
    · obtain rfl := Event.promoted.inj hπ'
      rw [hπ]
      refine ⟨hlater (href₀ ▸ h.fresh _ c₀ hc₀), hnot, ?_, hs⟩
      rw [← hv]
      exact hcons₀.extend hp.trace (hquiet _)
  · by_cases hid : id = q.clientId
    · rw [hid, hp.own] at he'
      obtain rfl := Option.some.inj he'
      exact ⟨π, by rw [hp.trace]; exact List.mem_append_right _ (List.mem_singleton.2 rfl), he⟩
    · obtain ⟨π', hπ', hof⟩ := h.sessions id e' (hp.others id e' hid he').1
      exact ⟨π', by rw [hp.trace]; exact List.mem_append_left _ hπ', hof⟩

theorem Proven.installConnection {id : ClientId} {c : PendingConnectionSession} (h : Proven C K s none)
    (hr : c.ref = s.nextRef) : Proven C K (s.installConnection id c) none := by
  have hst := fun id' => stateOf_installConnection s id id' c
  have hcon : ∀ id' c', ((s.installConnection id c).stateOf id').connection = some c' →
      id' = id ∧ c' = c ∨ id' ≠ id ∧ (s.stateOf id').connection = some c' := by
    intro id' c' hc'
    rw [hst] at hc'
    split at hc'
    · exact .inl ⟨by assumption, (Option.some.inj hc').symm⟩
    · exact .inr ⟨by assumption, hc'⟩
  have hest : ∀ id', ((s.installConnection id c).stateOf id').established = (s.stateOf id').established := by
    intro id'
    rw [hst]
    split
    · rename_i hid
      rw [hid]
    · rfl
  refine
    { fresh := fun id' c' hc' => ?_, apart := fun id₁ id₂ c₁ c₂ h₁ h₂ href => ?_
      issued := fun ref href => h.issued ref ((Nat.le_succ _).trans href), unasked := fun id' c' hc' _ => ?_
      asked := fun _ hq => (nomatch hq), promoted := fun π hπ => ?_
      sessions := fun id' e he => h.sessions id' e (by rw [← hest]; exact he) }
  · show c'.ref < s.nextRef + 1
    rcases hcon id' c' hc' with ⟨-, rfl⟩ | ⟨-, hold⟩
    · rw [hr]
      exact Nat.lt_succ_self _
    · exact (h.fresh id' c' hold).trans (Nat.lt_succ_self _)
  · rcases hcon id₁ c₁ h₁ with ⟨rfl, rfl⟩ | ⟨hne₁, hold₁⟩
    · rcases hcon id₂ c₂ h₂ with ⟨rfl, rfl⟩ | ⟨hne₂, hold₂⟩
      · rfl
      · exact absurd (href.symm.trans hr) (h.fresh id₂ c₂ hold₂).ne
    · rcases hcon id₂ c₂ h₂ with ⟨rfl, rfl⟩ | ⟨hne₂, hold₂⟩
      · exact absurd (href.trans hr) (h.fresh id₁ c₁ hold₁).ne
      · exact h.apart id₁ id₂ c₁ c₂ hold₁ hold₂ href
  · rcases hcon id' c' hc' with ⟨-, rfl⟩ | ⟨-, hold⟩
    · exact h.issued c'.ref hr.ge
    · exact h.unasked id' c' hold (fun _ hq => nomatch hq)
  · obtain ⟨hlt, hnot, hcons, hshown⟩ := h.promoted π hπ
    refine ⟨hlt.trans (Nat.lt_succ_self _), fun id' c' hc' => ?_, hcons, hshown⟩
    rcases hcon id' c' hc' with ⟨-, rfl⟩ | ⟨-, hold⟩
    · rw [hr]
      exact hlt.ne'
    · exact hnot id' c' hold

theorem Proven.installPairing {a : Option Asked} (h : Proven C K s a) (id : ClientId) (p : PendingPairingSession) :
    Proven C K (s.installPairing id p) a := by
  have hst := fun id' => stateOf_installPairing s id id' p
  have hcon : ∀ id', ((s.installPairing id p).stateOf id').connection = (s.stateOf id').connection := by
    intro id'
    rw [hst]
    split
    · rename_i hid
      rw [hid]
    · rfl
  have hest : ∀ id', ((s.installPairing id p).stateOf id').established = (s.stateOf id').established := by
    intro id'
    rw [hst]
    split
    · rename_i hid
      rw [hid]
    · rfl
  refine
    { fresh := fun id' c hc => (h.fresh id' c (by rw [← hcon]; exact hc)).trans (Nat.lt_succ_self _)
      apart := fun id₁ id₂ c₁ c₂ h₁ h₂ => h.apart id₁ id₂ c₁ c₂ (by rw [← hcon]; exact h₁) (by rw [← hcon]; exact h₂)
      issued := fun ref href => h.issued ref ((Nat.le_succ _).trans href)
      unasked := fun id' c hc => h.unasked id' c (by rw [← hcon]; exact hc)
      asked := fun q hq id' c hc => h.asked q hq id' c (by rw [← hcon]; exact hc)
      promoted := fun π hπ => ?_
      sessions := fun id' e he => h.sessions id' e (by rw [← hest]; exact he) }
  obtain ⟨hlt, hnot, hcons, hshown⟩ := h.promoted π hπ
  exact ⟨hlt.trans (Nat.lt_succ_self _), fun id' c hc => hnot id' c (by rw [← hcon]; exact hc), hcons, hshown⟩

theorem Proven.decides (h : Proven C K s (some q)) (hd : Decides C K s q s') : Proven C K s' none := by
  cases hd with
  | refused hst hgone => exact (h.steady hst).resolve hgone
  | promoted hst hacl hv hc hπ hl hs he hp => exact (h.steady hst).promotes hv hc hπ hs he hp

theorem Proven.connects {a a' : Option Asked} (h : Proven C K s a) (hc : Connects C K s a s' a') : Proven C K s' a' := by
  cases hc with
  | steady hst => exact h.steady hst
  | paired hst id p hroom =>
    exact (h.steady hst).installPairing id p
  | connected hst id c hr hroom => exact (h.steady hst).installConnection hr
  | asked hst hc hst' => exact ((h.steady hst).consume hc _).steady hst'
  | decided hd => exact h.decides hd
  | askedDecided hst hacl hc hd => exact ((h.steady hst).consume hc _).decides hd

/-! ## Where a promotion comes from -/

/-- **A promotion is of a connection that was pending**, under the list of that time. -/
theorem Decides.pending {π : Promotion} (h : Proven C K s (some q)) (hd : Decides C K s q s') (hπ : .promoted π ∈ s'.trace)
    (hnew : .promoted π ∉ s.trace) :
    ∃ id c, (s.stateOf id).connection = some c ∧ c.Same π.connection ∧ π.acl = s.acl := by
  cases hd with
  | refused hst hgone =>
    obtain ⟨l, hl, hpro, -⟩ := hst.trace
    rw [hl, List.mem_append] at hπ
    exact (hπ.elim hnew (hpro π)).elim
  | promoted hst hacl hv hc hπ' hl hs he hp =>
    rename_i t π' e
    obtain ⟨l, htr, hpro, -⟩ := hst.trace
    rw [hp.trace, htr, List.mem_append, List.mem_append, List.mem_singleton] at hπ
    rcases hπ with (hπ | hπ) | hπ
    · exact absurd hπ hnew
    · exact absurd hπ (hpro π)
    · obtain rfl := Event.promoted.inj hπ
      obtain ⟨c', hc', href⟩ := hc
      obtain ⟨c, hc, hsame⟩ := hst.connection _ c' hc'
      obtain ⟨-, hq, -⟩ := h.asked q rfl _ c hc (hsame.ref_eq.trans href)
      exact ⟨_, c, hc, hπ' ▸ hq, hl.trans hacl⟩

theorem Connects.pending {a a' : Option Asked} {π : Promotion} (h : Proven C K s a) (hc : Connects C K s a s' a')
    (hπ : .promoted π ∈ s'.trace) (hnew : .promoted π ∉ s.trace) :
    ∃ id c, (s.stateOf id).connection = some c ∧ c.Same π.connection ∧ π.acl = s.acl := by
  have hsteady : ∀ {t : BurrowRuntime}, Steady s t → .promoted π ∉ t.trace := by
    intro t hst ht
    obtain ⟨l, hl, hpro, -⟩ := hst.trace
    rw [hl, List.mem_append] at ht
    exact ht.elim hnew (hpro π)
  have hconsumed : ∀ {t : BurrowRuntime} {c : PendingConnectionSession} {now : Int}, Steady s t →
      .promoted π ∉ (t.consumeChallenge c now).1.trace := by
    intro t c now hst ht
    rcases List.mem_append.1 ht with ht | ht
    · exact hsteady hst ht
    · exact Event.noConfusion (List.mem_singleton.1 ht)
  cases hc with
  | steady hst => exact absurd hπ (hsteady hst)
  | paired hst id p hroom => exact (hsteady hst hπ).elim
  | connected hst id c hr hroom => exact (hsteady hst hπ).elim
  | asked hst hc hst' =>
    obtain ⟨l, hl, hpro, -⟩ := hst'.trace
    rw [hl, List.mem_append] at hπ
    exact (hπ.elim (hconsumed hst) (hpro π)).elim
  | decided hd => exact hd.pending h hπ hnew
  | askedDecided hst hacl hc hd =>
    obtain ⟨id, c', hc', hsame, heq⟩ := hd.pending ((h.steady hst).consume hc _) hπ (hconsumed hst)
    obtain ⟨c, hc, hsame'⟩ := hst.connection id c' hc'
    exact ⟨id, c, hc, hsame'.trans hsame, heq.trans hacl⟩

end

/-! ## Every run -/

structure Bounded (C : PresenceCrypto) (K : Config) (s : BurrowRuntime) : Prop where
  snapshots  : Snapshots s
  capped     : Capped s
  authorized : Authorized s
  proven     : Proven C K s s.asking

theorem Bounded.step {C : PresenceCrypto} {K : Config} {s : BurrowRuntime} (h : Bounded C K s) (i : Input) :
    Bounded C K (step C K s i) := by
  have hc := step_connects C K h.snapshots i
  exact ⟨h.snapshots.step (step_moves C K s i), h.capped.connects hc, h.authorized.connects hc, h.proven.connects hc⟩

theorem bounded_create (C : PresenceCrypto) (K : Config) (policy : ConnectionPolicy) (acl : BurrowAcl) (now : Int) :
    Bounded C K (create policy acl now) where
  snapshots := .none (fun _ _ _ _ h => nomatch h)
  capped :=
    { filled := fun _ _ h => (nomatch h), single := fun _ _ _ _ h => (nomatch h)
      sessions := Nat.zero_le _, connections := Nat.zero_le _, pairings := Nat.zero_le _ }
  authorized := fun _ _ h => nomatch h
  proven :=
    { fresh := fun _ _ h => (nomatch h), apart := fun _ _ _ _ h => (nomatch h), issued := fun _ _ => rfl
      unasked := fun _ _ h => (nomatch h), asked := fun _ h => (nomatch h)
      promoted := fun _ h => absurd h List.not_mem_nil, sessions := fun _ _ h => nomatch h }

/-- In every run each promotion was of a connection that was pending at some point, under the list of that point. -/
theorem promoted_in_run (C : PresenceCrypto) (K : Config) {s : BurrowRuntime} (h : Bounded C K s) {π : Promotion}
    (hnew : .promoted π ∉ s.trace) (inputs : List Input) (hπ : .promoted π ∈ (Steps.run (step C K) s inputs).trace) :
    ∃ before i after, inputs = before ++ i :: after ∧
      ∃ id c, ((Steps.run (step C K) s before).stateOf id).connection = some c ∧ c.Same π.connection ∧
        π.acl = (Steps.run (step C K) s before).acl := by
  induction inputs generalizing s with
  | nil => exact absurd hπ hnew
  | cons i inputs ih =>
    by_cases hfirst : .promoted π ∈ (step C K s i).trace
    · exact ⟨[], i, inputs, rfl, (step_connects C K h.snapshots i).pending h.proven hfirst hnew⟩
    · obtain ⟨before, j, after, rfl, hfrom⟩ := ih (h.step i) hfirst hπ
      exact ⟨i :: before, j, after, rfl, hfrom⟩

/-- **Connection bounds and authorization, over every run.**  Each session comes from a promotion of a connection that
was pending, with the window it was offered or a proof bound to its handshake, and with one record, not revoked in the
list of that point, that holds its passkey, its Client static, its account and its passkey hash; that connection was asked
for its challenge exactly once, when the issuer held it unexpired.  Each session has a record that is not revoked now.
A Client static has one session at most, and the sessions, the pending connections and the pairings are within their
caps.  No client's entry is empty. -/
theorem connection_bounds_and_authorization (C : PresenceCrypto) (K : Config) (policy : ConnectionPolicy)
    (acl : BurrowAcl) (now : Int) (inputs : List Input) :
    let s := Steps.run (step C K) (create policy acl now) inputs
    (∀ id e, s.establishedOf id = some e →
      (∃ π, e.Of π ∧ π.Shown C K ∧
        (∃ expiresAt at', s.trace.filter (Event.consumedFrom π.connection.ref) =
          [.consumed π.connection.ref π.connection.challenge (some expiresAt) at'] ∧ at' < expiresAt) ∧
        ∃ before i after, inputs = before ++ i :: after ∧
          ∃ id c, (Steps.run (step C K) (create policy acl now) before).connectionOf id = some c ∧
            c.Same π.connection ∧ π.acl = (Steps.run (step C K) (create policy acl now) before).acl) ∧
      ∃ r, s.acl.Active r ∧ r.passkeyCredentialId = e.passkeyCredentialId ∧
        r.clientStaticPublicKey = e.clientStaticPublicKey) ∧
    (∀ id id' e e', s.establishedOf id = some e → s.establishedOf id' = some e' →
      e.clientStaticPublicKey = e'.clientStaticPublicKey → id = id') ∧
    s.clients.count (·.established.isSome) ≤ maxEstablishedE2eSessions ∧
    s.clients.count (·.connection.isSome) ≤ maxPendingConnectionHandshakes ∧
    s.clients.count (·.pairing.isSome) ≤ maxPendingPairings ∧
    ∀ id st, s.clients.get id = some st → st.isEmpty = false := by
  intro s
  have hstart := bounded_create C K policy acl now
  have h : Bounded C K s := Steps.run_invariant (fun (t : BurrowRuntime) i (ht : Bounded C K t) => ht.step i) inputs _ hstart
  refine ⟨fun id e he => ⟨?_, ?_⟩, fun id id' e e' he he' => ?_, h.capped.sessions, h.capped.connections,
    h.capped.pairings, h.capped.filled⟩
  · rw [establishedOf_eq] at he
    obtain ⟨π, hπ, hof⟩ := h.proven.sessions id e he
    obtain ⟨-, -, ⟨held, at', hfilter, hvalid⟩, hshown⟩ := h.proven.promoted π hπ
    obtain ⟨expiresAt, rfl, hlt⟩ := hvalid rfl
    refine ⟨π, hof, hshown, ⟨expiresAt, at', hfilter, hlt⟩, ?_⟩
    obtain ⟨before, i, after, hsplit, id', c, hc, hsame, hlist⟩ :=
      promoted_in_run C K hstart (fun hnil => absurd hnil List.not_mem_nil) inputs hπ
    exact ⟨before, i, after, hsplit, id', c, by rw [connectionOf_eq]; exact hc, hsame, hlist⟩
  · rw [establishedOf_eq] at he
    exact h.authorized id e he
  · rw [establishedOf_eq] at he he'
    exact h.capped.single id id' e e' he he'

end BurrowRuntime
end Burrow
end Dormouse
