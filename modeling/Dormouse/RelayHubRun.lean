import Dormouse.RelayHub
import Mathlib.Data.List.Induction
/-!
# RelayHubRun — the bindings of the self-hosted relay, over every run

A binding is a registered Client with the `burrowId` it names and the socket that speaks for it; the hub keeps the `burrowId`
alone.  One call ends it, moves it or leaves it, and says so (`Tells`); only an `init` begins it.  So a binding that a run
holds was begun by an `init` forwarded to the very socket it names, and held ever since (`Held`).
-/
namespace Dormouse
namespace Relay
namespace RelayHub

variable (D : ClientIds)

def conn (ref : Ref) : ClientConn := ⟨D.newClientId ref, ref⟩

def binding (s : RelayHub) (ref : Ref) : Option (JsString × Ref) :=
  (s.entryOf (conn D ref)).bind (fun e => e.burrowId.bind (fun b => (s.burrows.get b).map (b, ·)))

structure WellFormed (s : RelayHub) : Prop where
  named        : ∀ id e, s.clients.get id = some e → id = D.newClientId e.ref
  clientsBelow : ∀ id e, s.clients.get id = some e → e.ref < s.nextRef
  burrowsBelow : ∀ b ref, s.burrows.get b = some ref → ref < s.nextRef
  /-- A Client is bound to no Burrow that is offline. -/
  online       : ∀ id e b, s.clients.get id = some e → e.burrowId = some b → s.isBurrowOnline b = true

def isNotice (ref : Ref) : Out → Bool
  | .toBurrow _ (.clientGone id) => id = D.newClientId ref
  | .toClient ref' .burrowGone   => ref' = ref
  | _                            => false

def told (s s' : RelayHub) (ref : Ref) : List Out :=
  match binding D s ref with
  | none        => []
  | some (b, σ) =>
    if binding D s' ref = some (b, σ) then []
    else if s'.burrows.get b = some σ then [.toBurrow σ (.clientGone (D.newClientId ref))]
    else [.toClient ref .burrowGone]

/-- **Each binding that ends is told to the other side once**: to the socket it was bound to while that still speaks for the
Burrow, and else to the Client; and nothing is told of a binding that stays. -/
def Tells (s s' : RelayHub) (outs : List Out) : Prop := ∀ ref, outs.filter (isNotice D ref) = told D s s' ref

def Keeps (s s' : RelayHub) : Prop := ∀ ref x, binding D s' ref = some x → binding D s ref = some x

variable {D}
variable {s : RelayHub} {e : ClientEntry}

theorem entryOf_eq_some {c : ClientConn} :
    s.entryOf c = some e ↔ s.clients.get c.clientId = some e ∧ e.ref = c.ref := by
  unfold entryOf
  rw [Option.filter_eq_some_iff, decide_eq_true_eq]

variable {ref : Ref} {b : JsString}

theorem binding_eq_some {σ : Ref} :
    binding D s ref = some (b, σ) ↔
      ∃ e, s.entryOf (conn D ref) = some e ∧ e.burrowId = some b ∧ s.burrows.get b = some σ := by
  unfold binding
  simp only [Option.bind_eq_some_iff, Option.map_eq_some_iff, Prod.mk.injEq]
  constructor
  · rintro ⟨e, he, b', hb, σ', hσ, rfl, rfl⟩
    exact ⟨e, he, hb, hσ⟩
  · rintro ⟨e, he, hb, hσ⟩
    exact ⟨e, he, b, hb, σ, hσ, rfl, rfl⟩

variable {s s' : RelayHub}

theorem binding_congr (he : s'.entryOf (conn D ref) = s.entryOf (conn D ref))
    (hb : ∀ e b, s.entryOf (conn D ref) = some e → e.burrowId = some b → s'.burrows.get b = s.burrows.get b) :
    binding D s' ref = binding D s ref := by
  unfold binding
  rw [he]
  refine Option.bind_congr (fun e hs => Option.bind_congr (fun b hsb => ?_))
  rw [hb e b hs hsb]

theorem WellFormed.conn_eq (h : WellFormed D s) {c : ClientConn} (he : s.entryOf c = some e) : c = conn D c.ref := by
  obtain ⟨hget, href⟩ := entryOf_eq_some.1 he
  have hid := h.named _ _ hget
  rw [href] at hid
  obtain ⟨id, ref⟩ := c
  exact congrArg (ClientConn.mk · ref) hid

theorem told_of_same (h : binding D s' ref = binding D s ref) : told D s s' ref = [] := by
  unfold told
  rw [h]
  split
  · rfl
  · rename_i heq
    rw [if_pos heq]

variable {outs : List Out}

theorem Tells.of_same (h : ∀ ref, binding D s' ref = binding D s ref) (ho : ∀ o ∈ outs, ∀ ref, isNotice D ref o = false) :
    Tells D s s' outs := by
  intro ref
  rw [told_of_same (h ref)]
  exact List.filter_eq_nil_iff.2 (fun o hin => by rw [ho o hin ref]; exact Bool.false_ne_true)

/-! ## A Burrow leaves, or another takes its place -/

theorem filter_dropped (hn : ∀ id e, s.clients.get id = some e → id = D.newClientId e.ref) (b : JsString) (ref : Ref) :
    (s.dropClientsOf b).2.filter (isNotice D ref) =
      ((s.entryOf (conn D ref)).filter (fun e => e.burrowId = some b)).toList.map (fun e => .toClient e.ref .burrowGone) := by
  have hkey : ∀ id e, s.clients.get id = some e → (decide (e.ref = ref) && decide (e.burrowId = some b)) = true →
      id = D.newClientId ref := by
    intro id e hget hq
    rw [Bool.and_eq_true, decide_eq_true_eq] at hq
    rw [hn id e hget, hq.1]
  have hnotice : (isNotice D ref ∘ fun e : ClientEntry => Out.toClient e.ref .burrowGone) = fun e => decide (e.ref = ref) := by
    funext e
    rfl
  unfold dropClientsOf
  rw [List.filter_map, hnotice, List.filter_filter, OrdMap.filter_values_of_key s.clients _ hkey]
  unfold entryOf conn
  dsimp only
  cases s.clients.get (D.newClientId ref) with
  | none => rfl
  | some e =>
    by_cases href : e.ref = ref
    · simp [href, Option.filter]
    · simp [href, Option.filter]

theorem entryOf_dropped (s : RelayHub) (b : JsString) (c : ClientConn) :
    (s.dropClientsOf b).1.entryOf c =
      (s.entryOf c).map (fun e => if e.burrowId = some b then { e with burrowId := none } else e) := by
  unfold dropClientsOf entryOf
  rw [OrdMap.get_mapValues]
  cases s.clients.get c.clientId with
  | none => rfl
  | some e =>
    by_cases hb : e.burrowId = some b
    · by_cases href : e.ref = c.ref
      · simp [Option.filter, hb, href]
      · simp [Option.filter, hb, href]
    · by_cases href : e.ref = c.ref
      · simp [Option.filter, hb, href]
      · simp [Option.filter, hb, href]

structure Effect (D : ClientIds) (s s' : RelayHub) (outs : List Out) : Prop where
  wellFormed : WellFormed D s'
  tells      : Tells D s s' outs
  keeps      : Keeps D s s'

theorem Effect.append {outs e e' : List Out} (h : Effect D s s' outs) (he : ∀ o ∈ e, ∀ ref, isNotice D ref o = false)
    (he' : ∀ o ∈ e', ∀ ref, isNotice D ref o = false) :
    Effect D s s' (e ++ outs ++ e') := by
  refine ⟨h.wellFormed, fun ref => ?_, h.keeps⟩
  have hnil : e.filter (isNotice D ref) = [] :=
    List.filter_eq_nil_iff.2 (fun o hin => by rw [he o hin ref]; exact Bool.false_ne_true)
  have hnil' : e'.filter (isNotice D ref) = [] :=
    List.filter_eq_nil_iff.2 (fun o hin => by rw [he' o hin ref]; exact Bool.false_ne_true)
  rw [List.filter_append, List.filter_append, hnil, hnil', List.nil_append, List.append_nil]
  exact h.tells ref

/-- **The socket that speaks for a Burrow goes**: its Clients are told, and bound no more. -/
theorem effect_dropClientsOf (h : WellFormed D s) {burrows : OrdMap JsString Ref} {next : Ref}
    (hother : ∀ b', b' ≠ b → burrows.get b' = s.burrows.get b')
    (hself : ∀ σ, s.burrows.get b = some σ → burrows.get b ≠ some σ) (hnext : s.nextRef ≤ next)
    (hbelow : ∀ σ, burrows.get b = some σ → σ < next) :
    Effect D s ({ s with burrows := burrows, nextRef := next }.dropClientsOf b).1
      ({ s with burrows := burrows, nextRef := next }.dropClientsOf b).2 := by
  have hentry := entryOf_dropped { s with burrows := burrows, nextRef := next } b
  have htold := filter_dropped (D := D) (s := { s with burrows := burrows, nextRef := next }) h.named b
  have hsame : ∀ c, ({ s with burrows := burrows, nextRef := next } : RelayHub).entryOf c = s.entryOf c := fun _ => rfl
  simp only [hsame] at hentry htold
  have hget : ∀ id e', ({ s with burrows := burrows, nextRef := next }.dropClientsOf b).1.clients.get id = some e' →
      ∃ e, s.clients.get id = some e ∧ e'.ref = e.ref ∧ (e'.burrowId = e.burrowId ∧ e.burrowId ≠ some b ∨
        e'.burrowId = none) := by
    intro id e' he'
    unfold dropClientsOf at he'
    rw [OrdMap.get_mapValues, Option.map_eq_some_iff] at he'
    obtain ⟨e, he, rfl⟩ := he'
    refine ⟨e, he, ?_, ?_⟩
    · split
      · rfl
      · rfl
    · split
      · exact .inr rfl
      · rename_i hb
        exact .inl ⟨rfl, hb⟩
  have hburrows : ({ s with burrows := burrows, nextRef := next }.dropClientsOf b).1.burrows = burrows := rfl
  generalize ({ s with burrows := burrows, nextRef := next }.dropClientsOf b).2 = outs at htold ⊢
  have hnextRef : ({ s with burrows := burrows, nextRef := next }.dropClientsOf b).1.nextRef = next := rfl
  generalize ({ s with burrows := burrows, nextRef := next }.dropClientsOf b).1 = s' at hentry hget hburrows hnextRef ⊢
  have hbind : ∀ ref, (∃ e σ, s.entryOf (conn D ref) = some e ∧ e.burrowId = some b ∧ binding D s ref = some (b, σ) ∧
      binding D s' ref = none) ∨ (binding D s' ref = binding D s ref ∧
        ∀ e, s.entryOf (conn D ref) = some e → e.burrowId ≠ some b) := by
    intro ref
    cases he : s.entryOf (conn D ref) with
    | none =>
      refine .inr ⟨binding_congr (by rw [hentry, he]; rfl) (fun e b' hs => ?_), fun e hs => (nomatch hs)⟩
      rw [he] at hs
      cases hs
    | some e =>
      by_cases hb : e.burrowId = some b
      · have hon := h.online _ e b (entryOf_eq_some.1 he).1 hb
        obtain ⟨σ, hσ⟩ := Option.isSome_iff_exists.1 hon
        refine .inl ⟨e, σ, rfl, hb, binding_eq_some.2 ⟨e, he, hb, hσ⟩, ?_⟩
        unfold binding
        rw [hentry, he, Option.map_some, if_pos hb]
        rfl
      · refine .inr ⟨binding_congr (by rw [hentry, he, Option.map_some, if_neg hb]) (fun e' b' hs hb' => ?_), fun e' hs => ?_⟩
        · rw [he] at hs
          obtain rfl := Option.some.inj hs
          rw [hburrows]
          exact hother b' (fun heq => hb (heq ▸ hb'))
        · obtain rfl := Option.some.inj hs
          exact hb
  refine ⟨⟨fun id e' he' => ?_, fun id e' he' => ?_, fun b' σ hσ => ?_, fun id e' b' he' hb' => ?_⟩, fun ref => ?_,
    fun ref x hx => ?_⟩
  · obtain ⟨e, he, href, -⟩ := hget id e' he'
    rw [href]
    exact h.named id e he
  · obtain ⟨e, he, href, -⟩ := hget id e' he'
    rw [href, hnextRef]
    exact (h.clientsBelow id e he).trans_le hnext
  · rw [hburrows] at hσ
    rw [hnextRef]
    by_cases heq : b' = b
    · exact hbelow σ (heq ▸ hσ)
    · rw [hother b' heq] at hσ
      exact (h.burrowsBelow b' σ hσ).trans_le hnext
  · obtain ⟨e, he, -, hid⟩ := hget id e' he'
    rcases hid with ⟨heq, hne⟩ | hnone
    · rw [heq] at hb'
      unfold isBurrowOnline
      rw [hburrows, hother b' (fun h' => hne (h' ▸ hb'))]
      exact h.online id e b' he hb'
    · rw [hnone] at hb'
      cases hb'
  · rw [htold ref]
    rcases hbind ref with ⟨e, σ, he, hb, hs, hs'⟩ | ⟨hsame', hne⟩
    · obtain ⟨-, href⟩ := entryOf_eq_some.1 he
      obtain ⟨e', he', hb', hσ⟩ := binding_eq_some.1 hs
      unfold told
      rw [hs, hs']
      simp only [reduceCtorEq, if_false]
      rw [hburrows, if_neg (hself σ hσ), he]
      simp only [Option.filter, hb, decide_true, if_true, Option.toList_some, List.map_cons, List.map_nil, href]
      rfl
    · rw [told_of_same hsame']
      cases he : s.entryOf (conn D ref) with
      | none => rfl
      | some e =>
        simp only [Option.filter, hne e he, decide_false, Bool.false_eq_true, if_false, Option.toList_none, List.map_nil]
  · rcases hbind ref with ⟨e, σ, he, hb, hs, hs'⟩ | ⟨hsame', -⟩
    · rw [hs'] at hx
      cases hx
    · rw [← hsame']
      exact hx

theorem WellFormed.grow (h : WellFormed D s) {burrows : OrdMap JsString Ref} {next : Ref}
    (hkept : ∀ b σ, s.burrows.get b = some σ → burrows.get b = some σ) (hnext : s.nextRef ≤ next)
    (hbelow : ∀ b σ, burrows.get b = some σ → σ < next) : WellFormed D { s with burrows := burrows, nextRef := next } where
  named := h.named
  clientsBelow id e he := (h.clientsBelow id e he).trans_le hnext
  burrowsBelow := hbelow
  online id e b he hb := by
    obtain ⟨σ, hσ⟩ := Option.isSome_iff_exists.1 (h.online id e b he hb)
    exact Option.isSome_iff_exists.2 ⟨σ, hkept b σ hσ⟩

theorem effect_registerBurrow (h : WellFormed D s) (b : JsString) (first : Option RelayPolicyFrame) :
    Effect D s (s.registerBurrow b first).1 (s.registerBurrow b first).2 := by
  have hquiet : ∀ o ∈ first.toList.map (fun frame => Out.toBurrow s.nextRef (.policy frame)), ∀ ref,
      isNotice D ref o = false := by
    intro o ho ref
    obtain ⟨frame, -, rfl⟩ := List.mem_map.1 ho
    rfl
  have hbelow : ∀ b' σ, (s.burrows.set b s.nextRef).get b' = some σ → σ < s.nextRef + 1 := by
    intro b' σ hσ
    rw [OrdMap.get_set] at hσ
    split at hσ
    · obtain rfl := Option.some.inj hσ
      exact Nat.lt_succ_self _
    · exact Nat.lt_succ_of_lt (h.burrowsBelow b' σ hσ)
  unfold registerBurrow
  cases hget : s.burrows.get b with
  | none =>
    have hkept : ∀ b' σ, s.burrows.get b' = some σ → (s.burrows.set b s.nextRef).get b' = some σ := by
      intro b' σ hσ
      rw [OrdMap.get_set_ne _ _ (fun heq => ?_)]
      · exact hσ
      · rw [heq, hget] at hσ
        cases hσ
    -- a Client bound before is bound to a Burrow that was online, so not to this one
    have hsame : ∀ ref, binding D { s with burrows := s.burrows.set b s.nextRef, nextRef := s.nextRef + 1 } ref =
        binding D s ref := by
      refine fun ref => binding_congr rfl (fun e b' he hb' => ?_)
      obtain ⟨σ, hσ⟩ := Option.isSome_iff_exists.1 (h.online _ e b' (entryOf_eq_some.1 he).1 hb')
      rw [hkept b' σ hσ, hσ]
    exact ⟨h.grow hkept (Nat.le_succ _) hbelow, .of_same hsame hquiet, fun ref x hx => hsame ref ▸ hx⟩
  | some existing =>
    refine Effect.append ?_ hquiet (fun o ho ref => by rw [List.mem_singleton.1 ho]; rfl)
    refine effect_dropClientsOf h (fun b' hne => OrdMap.get_set_ne _ _ hne) (fun σ hσ heq => ?_) (Nat.le_succ _)
      (fun σ => hbelow b σ)
    rw [OrdMap.get_set_self] at heq
    exact absurd (h.burrowsBelow b σ hσ) (Option.some.inj heq ▸ Nat.lt_irrefl _)

theorem effect_unregisterBurrow (h : WellFormed D s) (burrow : BurrowConn) :
    Effect D s (s.unregisterBurrow burrow).1 (s.unregisterBurrow burrow).2 := by
  unfold unregisterBurrow
  split
  · exact ⟨h, .of_same (fun _ => rfl) (fun _ ho => absurd ho List.not_mem_nil), fun _ _ hx => hx⟩
  · refine effect_dropClientsOf h (fun b' hne => OrdMap.get_delete_ne _ hne) (fun σ _ heq => ?_) (Nat.le_refl _)
      (fun σ heq => ?_)
    · rw [OrdMap.get_delete_self] at heq
      cases heq
    · rw [OrdMap.get_delete_self] at heq
      cases heq

theorem effect_closeBurrow (h : WellFormed D s) (b : JsString) :
    Effect D s (s.closeBurrow b).1 (s.closeBurrow b).2 := by
  unfold closeBurrow
  split
  · exact ⟨h, .of_same (fun _ => rfl) (fun _ ho => absurd ho List.not_mem_nil), fun _ _ hx => hx⟩
  · exact (effect_unregisterBurrow h _).append (e := []) (fun _ ho => absurd ho List.not_mem_nil)
      (fun o ho ref => by rw [List.mem_singleton.1 ho]; rfl)

/-! ## A Client comes, and goes -/

theorem effect_registerClient (h : WellFormed D s) (expiresAt : Int) :
    Effect D s (registerClient D s expiresAt).1 (registerClient D s expiresAt).2 := by
  have hgrown : WellFormed D { s with nextRef := s.nextRef + 1 } :=
    h.grow (fun _ _ hσ => hσ) (Nat.le_succ _) (fun b σ hσ => Nat.lt_succ_of_lt (h.burrowsBelow b σ hσ))
  unfold registerClient
  split
  · exact ⟨hgrown, .of_same (fun _ => rfl) (fun o ho ref => by rw [List.mem_singleton.1 ho]; rfl), fun _ _ hx => hx⟩
  · have hnew : s.clients.get (D.newClientId s.nextRef) = none := by
      cases hget : s.clients.get (D.newClientId s.nextRef) with
      | none => rfl
      | some e =>
        have href := D.fresh (h.named _ e hget)
        exact absurd (h.clientsBelow _ e hget) (href ▸ Nat.lt_irrefl _)
    have hget : ∀ id e, (s.clients.set (D.newClientId s.nextRef) ⟨s.nextRef, expiresAt, none⟩).get id = some e →
        (id = D.newClientId s.nextRef ∧ e = ⟨s.nextRef, expiresAt, none⟩) ∨ s.clients.get id = some e := by
      intro id e he
      rw [OrdMap.get_set] at he
      split at he
      · rename_i hid
        exact .inl ⟨hid, (Option.some.inj he).symm⟩
      · exact .inr he
    have hsame : ∀ ref, binding D { s with
        clients := s.clients.set (D.newClientId s.nextRef) ⟨s.nextRef, expiresAt, none⟩
        nextRef := s.nextRef + 1 } ref = binding D s ref := by
      intro ref
      by_cases href : ref = s.nextRef
      · subst href
        simp only [binding, entryOf, conn, OrdMap.get_set_self, hnew, Option.filter, decide_true, if_true]
        rfl
      · refine binding_congr ?_ (fun _ _ _ _ => rfl)
        unfold entryOf conn
        rw [OrdMap.get_set_ne _ _ (fun heq => href (D.fresh heq))]
    refine ⟨⟨fun id e he => ?_, fun id e he => ?_, hgrown.burrowsBelow, fun id e b he hb => ?_⟩,
      .of_same hsame (fun _ ho => absurd ho List.not_mem_nil), fun ref x hx => hsame ref ▸ hx⟩
    · rcases hget id e he with ⟨rfl, rfl⟩ | he
      · rfl
      · exact h.named id e he
    · rcases hget id e he with ⟨rfl, rfl⟩ | he
      · exact Nat.lt_succ_self _
      · exact hgrown.clientsBelow id e he
    · rcases hget id e he with ⟨rfl, rfl⟩ | he
      · cases hb
      · exact h.online id e b he hb

theorem filter_tellGone (s : RelayHub) (ref ref' : Ref) (b : Option JsString) :
    (s.tellGone (D.newClientId ref') b).filter (isNotice D ref) =
      if ref' = ref then s.tellGone (D.newClientId ref') b else [] := by
  unfold tellGone
  split
  · split
    · rfl
    · rfl
  · by_cases href : ref' = ref
    · subst href
      rw [if_pos rfl, List.filter_cons_of_pos (by simp [isNotice]), List.filter_nil]
    · rw [if_neg href, List.filter_cons_of_neg (by simpa [isNotice] using fun heq => href (D.fresh heq)), List.filter_nil]

theorem tellGone_eq (h : WellFormed D s) (he : s.entryOf (conn D ref) = some e) :
    (e.burrowId = none ∧ binding D s ref = none ∧ s.tellGone (D.newClientId ref) e.burrowId = []) ∨
    ∃ b σ, e.burrowId = some b ∧ s.burrows.get b = some σ ∧ binding D s ref = some (b, σ) ∧
      s.tellGone (D.newClientId ref) e.burrowId = [.toBurrow σ (.clientGone (D.newClientId ref))] := by
  cases hb : e.burrowId with
  | none =>
    refine .inl ⟨rfl, ?_, rfl⟩
    unfold binding
    rw [he, Option.bind_some, hb]
    rfl
  | some b =>
    obtain ⟨σ, hσ⟩ := Option.isSome_iff_exists.1 (h.online _ e b (entryOf_eq_some.1 he).1 hb)
    refine .inr ⟨b, σ, rfl, hσ, binding_eq_some.2 ⟨e, he, hb, hσ⟩, ?_⟩
    unfold tellGone
    rw [Option.bind_some, hσ]

structure Leaves (D : ClientIds) (s s' : RelayHub) (outs : List Out) : Prop where
  wellFormed : WellFormed D s'
  burrows    : s'.burrows = s.burrows
  each       : ∀ ref, (binding D s' ref = binding D s ref ∧ outs.filter (isNotice D ref) = []) ∨
    (binding D s' ref = none ∧ ∃ b σ, binding D s ref = some (b, σ) ∧
      outs.filter (isNotice D ref) = [.toBurrow σ (.clientGone (D.newClientId ref))])

theorem Leaves.trans {s s' s'' : RelayHub} {outs outs' : List Out} (h : Leaves D s s' outs) (h' : Leaves D s' s'' outs') :
    Leaves D s s'' (outs ++ outs') := by
  refine ⟨h'.wellFormed, h'.burrows.trans h.burrows, fun ref => ?_⟩
  rw [List.filter_append]
  rcases h.each ref with ⟨hsame, hnil⟩ | ⟨hnone, b, σ, hb, htold⟩
  · rw [hnil, List.nil_append, ← hsame]
    exact h'.each ref
  · refine .inr ?_
    rcases h'.each ref with ⟨hsame, hnil⟩ | ⟨-, b', σ', hb', -⟩
    · exact ⟨hsame.trans hnone, b, σ, hb, by rw [hnil, List.append_nil, htold]⟩
    · rw [hnone] at hb'
      cases hb'

theorem Leaves.effect (h : Leaves D s s' outs) : Effect D s s' outs := by
  refine ⟨h.wellFormed, fun ref => ?_, fun ref x hx => ?_⟩
  · rcases h.each ref with ⟨hsame, hnil⟩ | ⟨hnone, b, σ, hb, htold⟩
    · rw [hnil, told_of_same hsame]
    · obtain ⟨-, -, -, hσ⟩ := binding_eq_some.1 hb
      unfold told
      rw [htold, hb, hnone]
      simp only [reduceCtorEq, if_false]
      rw [h.burrows, if_pos hσ]
  · rcases h.each ref with ⟨hsame, -⟩ | ⟨hnone, -⟩
    · exact hsame ▸ hx
    · rw [hnone] at hx
      cases hx

theorem Leaves.refl (h : WellFormed D s) (ho : ∀ o ∈ outs, ∀ ref, isNotice D ref o = false) :
    Leaves D s s outs :=
  ⟨h, rfl, fun ref => .inl ⟨rfl, List.filter_eq_nil_iff.2 (fun o hin => by rw [ho o hin ref]; exact Bool.false_ne_true)⟩⟩

theorem leaves_unregisterClient (h : WellFormed D s) (client : ClientConn) :
    Leaves D s (s.unregisterClient client).1 (s.unregisterClient client).2 := by
  unfold unregisterClient
  split
  · exact .refl h (fun _ ho => absurd ho List.not_mem_nil)
  · rename_i e he
    obtain ⟨ref', rfl⟩ : ∃ ref', client = conn D ref' := ⟨client.ref, h.conn_eq he⟩
    have hget : ∀ id e', (s.clients.delete (D.newClientId ref')).get id = some e' → s.clients.get id = some e' := by
      intro id e' he'
      rw [OrdMap.get_delete] at he'
      split at he'
      · cases he'
      · exact he'
    refine ⟨⟨fun id e' he' => h.named id e' (hget id e' he'), fun id e' he' => h.clientsBelow id e' (hget id e' he'),
      h.burrowsBelow, fun id e' b he' hb => h.online id e' b (hget id e' he') hb⟩, rfl, fun ref => ?_⟩
    rw [show (conn D ref').clientId = D.newClientId ref' from rfl, filter_tellGone]
    by_cases href : ref' = ref
    · subst href
      have hnone : binding D { s with clients := s.clients.delete (D.newClientId ref') } ref' = none := by
        simp only [binding, entryOf, conn, OrdMap.get_delete_self]
        rfl
      rw [if_pos rfl]
      rcases tellGone_eq h he with ⟨-, hb, hnil⟩ | ⟨b, σ, -, -, hb, htold⟩
      · exact .inl ⟨hnone.trans hb.symm, hnil⟩
      · exact .inr ⟨hnone, b, σ, hb, htold⟩
    · rw [if_neg href]
      refine .inl ⟨binding_congr ?_ (fun _ _ _ _ => rfl), rfl⟩
      unfold entryOf conn
      rw [OrdMap.get_delete_ne _ (fun heq => href (D.fresh heq).symm)]

theorem leaves_expireClient (now : Int) (h : WellFormed D s) (client : JsString × ClientEntry) :
    Leaves D s (expireClient now s client).1 (expireClient now s client).2 := by
  unfold expireClient
  split
  · exact .refl h (fun _ ho => absurd ho List.not_mem_nil)
  · have hgone := leaves_unregisterClient h ⟨client.1, client.2.ref⟩
    exact hgone.trans (.refl hgone.wellFormed (fun o ho ref => by rw [List.mem_singleton.1 ho]; rfl))

theorem leaves_closeExpired (now : Int) : ∀ (l : List (JsString × ClientEntry)) {s : RelayHub}, WellFormed D s →
    Leaves D s (Mealy.run (expireClient now) s l).1 (Mealy.run (expireClient now) s l).2
  | [], _, h => .refl h (fun _ ho => absurd ho List.not_mem_nil)
  | client :: l, s, h => by
    have hone := leaves_expireClient now h client
    rw [Mealy.run_cons]
    exact hone.trans (leaves_closeExpired now l hone.wellFormed)

/-! ## A Client's frame -/

variable (parse : JsString → Option Json)

inductive ClientReads (s : RelayHub) (ref : Ref) (raw : JsString) : RelayHub → List Out → Prop where
  /-- The Client alone is answered. -/
  | answered (outs : List Out)
      (h : ∀ o ∈ outs, o = .pong ref ∨ ∃ text, o = .toClient ref (.error text)) : ClientReads s ref raw s outs
  | transport (e : ClientEntry) (frame : E2eClientFrame) (burrow : Ref) (he : s.entryOf (conn D ref) = some e)
      (hr : readClientFrame parse raw = .ok frame) (hb : s.burrows.get frame.burrowId = some burrow)
      (hbound : e.burrowId = some frame.burrowId) :
      ClientReads s ref raw s [.toBurrow burrow (toBurrowEnvelope (D.newClientId ref) frame)]
  | init (e : ClientEntry) (frame : E2eClientFrame) (burrow : Ref) (he : s.entryOf (conn D ref) = some e)
      (hr : readClientFrame parse raw = .ok frame) (hb : s.burrows.get frame.burrowId = some burrow)
      (hinit : frame.step = .init) :
      ClientReads s ref raw { s with clients := s.clients.set (D.newClientId ref) { e with burrowId := some frame.burrowId } }
        ((if e.burrowId = some frame.burrowId then [] else s.tellGone (D.newClientId ref) e.burrowId) ++
          [.toBurrow burrow (toBurrowEnvelope (D.newClientId ref) frame)])

/-- **What a Client's frame does.** -/
theorem onClientFrame_cases (h : WellFormed D s) (client : ClientConn) (raw : JsString) :
    (s.entryOf client = none ∧ onClientFrame parse s client raw = (s, [])) ∨
    (client = conn D client.ref ∧
      ClientReads (D := D) parse s client.ref raw (onClientFrame parse s client raw).1 (onClientFrame parse s client raw).2) := by
  unfold onClientFrame
  cases he : s.entryOf client with
  | none => exact .inl ⟨rfl, rfl⟩
  | some e =>
    have hconn := h.conn_eq he
    refine .inr ⟨hconn, ?_⟩
    obtain ⟨ref, hc⟩ : ∃ ref, client = conn D ref := ⟨client.ref, hconn⟩
    subst hc
    dsimp only
    split
    · exact .answered _ (fun o ho => .inl (List.mem_singleton.1 ho))
    · split
      · rename_i frame hread
        obtain ⟨text, rfl⟩ := readClientFrame_error parse hread
        exact .answered _ (fun o ho => .inr ⟨text, List.mem_singleton.1 ho⟩)
      · rename_i frame hread
        split
        · exact .answered _ (fun o ho => .inr ⟨_, List.mem_singleton.1 ho⟩)
        · rename_i burrow hb
          split
          · rename_i hinit
            exact .init e frame burrow he hread hb hinit
          · split
            · exact .answered _ (fun _ ho => absurd ho List.not_mem_nil)
            · rename_i hbound
              exact .transport e frame burrow he hread hb (Decidable.not_not.1 hbound)

theorem binding_init {burrow : Ref} (he : s.entryOf (conn D ref) = some e) (hb : s.burrows.get b = some burrow)
    (ref' : Ref) :
    binding D { s with clients := s.clients.set (D.newClientId ref) { e with burrowId := some b } } ref' =
      if ref' = ref then some (b, burrow) else binding D s ref' := by
  obtain ⟨-, href⟩ := entryOf_eq_some.1 he
  split
  · rename_i heq
    subst heq
    refine binding_eq_some.2 ⟨{ e with burrowId := some b }, entryOf_eq_some.2 ⟨?_, href⟩, rfl, hb⟩
    exact OrdMap.get_set_self _ _ _
  · rename_i hne
    refine binding_congr ?_ (fun _ _ _ _ => rfl)
    unfold entryOf conn
    rw [OrdMap.get_set_ne _ _ (fun heq => hne (D.fresh heq))]

/-- **A Client's frame** tells the Burrow it leaves, and no one else. -/
theorem ClientReads.tells {raw : JsString} (h : WellFormed D s) (hc : ClientReads (D := D) parse s ref raw s' outs) :
    WellFormed D s' ∧ Tells D s s' outs := by
  cases hc with
  | answered outs ho =>
    refine ⟨h, .of_same (fun _ => rfl) (fun o hin ref' => ?_)⟩
    rcases ho o hin with rfl | ⟨text, rfl⟩
    · rfl
    · rfl
  | transport e frame burrow he hr hb hbound =>
    exact ⟨h, .of_same (fun _ => rfl) (fun o hin ref' => by rw [List.mem_singleton.1 hin]; rfl)⟩
  | init e frame burrow he hr hb hinit =>
    obtain ⟨hget, href⟩ := entryOf_eq_some.1 he
    have hentry : ∀ id e', (s.clients.set (D.newClientId ref) { e with burrowId := some frame.burrowId }).get id = some e' →
        (id = D.newClientId ref ∧ e' = { e with burrowId := some frame.burrowId }) ∨ s.clients.get id = some e' := by
      intro id e' he'
      rw [OrdMap.get_set] at he'
      split at he'
      · rename_i hid
        exact .inl ⟨hid, (Option.some.inj he').symm⟩
      · exact .inr he'
    refine ⟨⟨fun id e' he' => ?_, fun id e' he' => ?_, h.burrowsBelow, fun id e' b he' hb' => ?_⟩, fun ref' => ?_⟩
    · rcases hentry id e' he' with ⟨rfl, rfl⟩ | he'
      · exact h.named _ e hget
      · exact h.named id e' he'
    · rcases hentry id e' he' with ⟨rfl, rfl⟩ | he'
      · exact h.clientsBelow _ e hget
      · exact h.clientsBelow id e' he'
    · rcases hentry id e' he' with ⟨rfl, rfl⟩ | he'
      · obtain rfl := Option.some.inj hb'
        exact Option.isSome_iff_exists.2 ⟨burrow, hb⟩
      · exact h.online id e' b he' hb'
    · have hforward : [Out.toBurrow burrow (toBurrowEnvelope (D.newClientId ref) frame)].filter (isNotice D ref') = [] := rfl
      rw [List.filter_append, hforward, List.append_nil]
      have hafter := binding_init he hb ref'
      by_cases hne : ref' = ref
      · subst hne
        rw [if_pos rfl] at hafter
        split
        · rename_i hsame
          rw [told_of_same (hafter.trans (binding_eq_some.2 ⟨e, he, hsame, hb⟩).symm)]
          rfl
        · rename_i hmoves
          rw [filter_tellGone, if_pos rfl]
          unfold told
          rcases tellGone_eq h he with ⟨-, hnone, hnil⟩ | ⟨b, σ, hbid, hσ, hbefore, htold⟩
          · rw [hnone, hnil]
          · rw [htold, hbefore, hafter]
            dsimp only
            rw [if_neg, if_pos hσ]
            rintro heq
            obtain ⟨rfl, -⟩ := Prod.mk.inj (Option.some.inj heq)
            exact hmoves hbid
      · rw [if_neg hne] at hafter
        rw [told_of_same hafter]
        split
        · rfl
        · rw [filter_tellGone, if_neg (Ne.symm hne)]

/-! ## Every call -/

theorem quiet_onBurrowFrame (s : RelayHub) (burrow : BurrowConn) (raw : JsString) :
    ∀ o ∈ onBurrowFrame parse s burrow raw, ∀ ref, isNotice D ref o = false := by
  intro o ho ref
  unfold onBurrowFrame at ho
  split at ho
  · exact absurd ho List.not_mem_nil
  · split at ho
    · rw [List.mem_singleton.1 ho]
      rfl
    · split at ho
      · exact absurd ho List.not_mem_nil
      · split at ho
        · exact absurd ho List.not_mem_nil
        · split at ho
          · exact absurd ho List.not_mem_nil
          · rw [List.mem_singleton.1 ho]
            rfl

def Input.isClientFrame : Input → Bool
  | .clientFrame _ _ => true
  | _                => false

theorem effect_step (h : WellFormed D s) {i : Input} (hi : i.isClientFrame = false) :
    Effect D s (step D parse s i).1 (step D parse s i).2 := by
  cases i with
  | registerBurrow b first => exact effect_registerBurrow h b first
  | burrowFrame burrow raw => exact ⟨h, .of_same (fun _ => rfl) (quiet_onBurrowFrame parse s burrow raw), fun _ _ hx => hx⟩
  | unregisterBurrow burrow => exact effect_unregisterBurrow h burrow
  | closeBurrow b => exact effect_closeBurrow h b
  | nudgeBurrows =>
    refine ⟨h, .of_same (fun _ => rfl) (fun o ho ref => ?_), fun _ _ hx => hx⟩
    obtain ⟨σ, -, rfl⟩ := List.mem_map.1 ho
    rfl
  | registerClient expiresAt => exact effect_registerClient h expiresAt
  | clientFrame client raw => cases hi
  | unregisterClient client => exact (leaves_unregisterClient h client).effect
  | closeExpiredClients now => exact (leaves_closeExpired now s.clients.entries h).effect

/-- **One call** keeps the hub well formed and tells each ended binding once. -/
theorem step_tells (h : WellFormed D s) (i : Input) :
    WellFormed D (step D parse s i).1 ∧ Tells D s (step D parse s i).1 (step D parse s i).2 := by
  cases hi : i.isClientFrame with
  | false =>
    have heffect := effect_step parse h hi
    exact ⟨heffect.wellFormed, heffect.tells⟩
  | true =>
    cases i with
    | clientFrame client raw =>
      rcases onClientFrame_cases parse h client raw with ⟨-, heq⟩ | ⟨-, hreads⟩
      · rw [show step D parse s (.clientFrame client raw) = (s, []) from heq]
        exact ⟨h, .of_same (fun _ => rfl) (fun _ ho => absurd ho List.not_mem_nil)⟩
      · exact hreads.tells parse h
    | _ => cases hi

/-- **A binding begins with an `init`**, forwarded to the socket it names. -/
theorem step_begins (h : WellFormed D s) {i : Input} {σ : Ref} (hb : binding D (step D parse s i).1 ref = some (b, σ)) :
    binding D s ref = some (b, σ) ∨
      ∃ raw frame, i = .clientFrame (conn D ref) raw ∧ readClientFrame parse raw = .ok frame ∧ frame.burrowId = b ∧
        frame.step = .init ∧ .toBurrow σ (toBurrowEnvelope (D.newClientId ref) frame) ∈ (step D parse s i).2 := by
  cases hi : i.isClientFrame with
  | false => exact .inl ((effect_step parse h hi).keeps ref _ hb)
  | true =>
    cases i with
    | clientFrame client raw =>
      have hb : binding D (onClientFrame parse s client raw).1 ref = some (b, σ) := hb
      rcases onClientFrame_cases parse h client raw with ⟨-, heq⟩ | ⟨hconn, hreads⟩
      · rw [heq] at hb
        exact .inl hb
      · show binding D s ref = some (b, σ) ∨ ∃ raw' frame, Input.clientFrame client raw = .clientFrame (conn D ref) raw' ∧
          readClientFrame parse raw' = .ok frame ∧ frame.burrowId = b ∧ frame.step = .init ∧
          .toBurrow σ (toBurrowEnvelope (D.newClientId ref) frame) ∈ (onClientFrame parse s client raw).2
        generalize (onClientFrame parse s client raw).1 = s' at hb hreads
        generalize (onClientFrame parse s client raw).2 = outs at hreads ⊢
        cases hreads with
        | answered outs ho => exact .inl hb
        | transport e frame burrow he hr hburrow hbound => exact .inl hb
        | init e frame burrow he hr hburrow hinit =>
          rw [binding_init he hburrow] at hb
          split at hb
          · rename_i href
            obtain ⟨rfl, rfl⟩ := Prod.mk.inj (Option.some.inj hb)
            refine .inr ⟨raw, frame, by rw [href, ← hconn], hr, rfl, hinit, ?_⟩
            rw [href]
            exact List.mem_append_right _ (List.mem_singleton.2 rfl)
          · exact .inl hb
    | _ => cases hi

/-! ## Every run -/

theorem after_concat (inputs : List Input) (i : Input) :
    after D parse (inputs ++ [i]) = (step D parse (after D parse inputs) i).1 := by
  unfold after
  rw [Mealy.run_append, Mealy.run_one]

theorem wellFormed_after (inputs : List Input) : WellFormed D (after D parse inputs) := by
  induction inputs using List.reverseRecOn with
  | nil => exact ⟨fun _ _ h => (nomatch h), fun _ _ h => (nomatch h), fun _ _ h => (nomatch h), fun _ _ _ h => (nomatch h)⟩
  | append_singleton inputs i ih =>
    rw [after_concat]
    exact (step_tells parse ih i).1

/-- **Bound since an `init`**: the Client's own `init` for the Burrow was forwarded to the socket, and in every state from
then on the Client is bound to that Burrow and that socket. -/
def Held (D : ClientIds) (inputs : List Input) (ref : Ref) (b : JsString) (σ : Ref) : Prop :=
  ∃ earlier raw frame later, inputs = earlier ++ .clientFrame (conn D ref) raw :: later ∧
    readClientFrame parse raw = .ok frame ∧ frame.burrowId = b ∧ frame.step = .init ∧
    .toBurrow σ (toBurrowEnvelope (D.newClientId ref) frame) ∈
      (step D parse (after D parse earlier) (.clientFrame (conn D ref) raw)).2 ∧
    ∀ k, binding D (after D parse (earlier ++ .clientFrame (conn D ref) raw :: later.take k)) ref = some (b, σ)

theorem held_of_binding (inputs : List Input) {σ : Ref} (h : binding D (after D parse inputs) ref = some (b, σ)) :
    Held parse D inputs ref b σ := by
  induction inputs using List.reverseRecOn with
  | nil =>
    obtain ⟨e, he, -⟩ := binding_eq_some.1 h
    cases he
  | append_singleton inputs i ih =>
    rw [after_concat] at h
    rcases step_begins parse (wellFormed_after parse inputs) h with hbefore | ⟨raw, frame, rfl, hread, hb, hinit, hsent⟩
    · obtain ⟨earlier, raw, frame, later, rfl, hread, hb, hinit, hsent, hever⟩ := ih hbefore
      refine ⟨earlier, raw, frame, later ++ [i], by rw [List.append_assoc, List.cons_append], hread, hb, hinit, hsent,
        fun k => ?_⟩
      by_cases hk : k ≤ later.length
      · rw [List.take_append_of_le_length hk]
        exact hever k
      · rw [List.take_of_length_le (by rw [List.length_append, List.length_singleton]; omega), ← List.cons_append,
          ← List.append_assoc, after_concat]
        exact h
    · refine ⟨inputs, raw, frame, [], rfl, hread, hb, hinit, hsent, fun k => ?_⟩
      rw [List.take_nil, after_concat]
      exact h

/-! ## What is gone stays gone -/

/-- A socket that speaks for a Burrow, or is a Client's, did before or is new. -/
structure Ages (s s' : RelayHub) : Prop where
  next    : s.nextRef ≤ s'.nextRef
  burrows : ∀ b σ, s'.burrows.get b = some σ → s.burrows.get b = some σ ∨ s.nextRef ≤ σ
  clients : ∀ id e', s'.clients.get id = some e' → (∃ e, s.clients.get id = some e ∧ e.ref = e'.ref) ∨ s.nextRef ≤ e'.ref

theorem Ages.refl (s : RelayHub) : Ages s s := ⟨Nat.le_refl _, fun _ _ h => .inl h, fun _ e' h => .inl ⟨e', h, rfl⟩⟩

theorem Ages.trans {s s' s'' : RelayHub} (h : Ages s s') (h' : Ages s' s'') : Ages s s'' := by
  refine ⟨h.next.trans h'.next, fun b σ hσ => ?_, fun id e' he' => ?_⟩
  · rcases h'.burrows b σ hσ with hold | hnew
    · exact h.burrows b σ hold
    · exact .inr (h.next.trans hnew)
  · rcases h'.clients id e' he' with ⟨e, he, href⟩ | hnew
    · rw [← href]
      exact h.clients id e he
    · exact .inr (h.next.trans hnew)

theorem ages_dropClientsOf (s : RelayHub) (b : JsString) : Ages s (s.dropClientsOf b).1 := by
  refine ⟨Nat.le_refl _, fun _ _ h => .inl h, fun id e' he' => .inl ?_⟩
  unfold dropClientsOf at he'
  rw [OrdMap.get_mapValues, Option.map_eq_some_iff] at he'
  obtain ⟨e, he, rfl⟩ := he'
  refine ⟨e, he, ?_⟩
  split
  · rfl
  · rfl

theorem ages_unregisterBurrow (s : RelayHub) (burrow : BurrowConn) : Ages s (s.unregisterBurrow burrow).1 := by
  unfold unregisterBurrow
  split
  · exact .refl s
  · have hdelete : Ages s { s with burrows := s.burrows.delete burrow.burrowId } := by
      refine ⟨Nat.le_refl _, fun b σ hσ => ?_, fun _ e' h => .inl ⟨e', h, rfl⟩⟩
      rw [OrdMap.get_delete] at hσ
      split at hσ
      · cases hσ
      · exact .inl hσ
    exact hdelete.trans (ages_dropClientsOf _ _)

theorem ages_unregisterClient (s : RelayHub) (client : ClientConn) : Ages s (s.unregisterClient client).1 := by
  unfold unregisterClient
  split
  · exact .refl s
  · refine ⟨Nat.le_refl _, fun _ _ h => .inl h, fun id e' he' => .inl ⟨e', ?_, rfl⟩⟩
    rw [OrdMap.get_delete] at he'
    split at he'
    · cases he'
    · exact he'

theorem ages_closeExpired (now : Int) : ∀ (l : List (JsString × ClientEntry)) (s : RelayHub),
    Ages s (Mealy.run (expireClient now) s l).1
  | [], s => .refl s
  | client :: l, s => by
    rw [Mealy.run_cons]
    refine Ages.trans ?_ (ages_closeExpired now l _)
    unfold expireClient
    split
    · exact .refl s
    · exact ages_unregisterClient s _

theorem ages_step (s : RelayHub) (i : Input) : Ages s (step D parse s i).1 := by
  cases i with
  | registerBurrow b first =>
    have hset : Ages s { s with burrows := s.burrows.set b s.nextRef, nextRef := s.nextRef + 1 } := by
      refine ⟨Nat.le_succ _, fun b' σ hσ => ?_, fun _ e' h => .inl ⟨e', h, rfl⟩⟩
      rw [OrdMap.get_set] at hσ
      split at hσ
      · exact .inr (Nat.le_of_eq (Option.some.inj hσ))
      · exact .inl hσ
    unfold step registerBurrow
    dsimp only
    split
    · exact hset
    · exact hset.trans (ages_dropClientsOf _ _)
  | burrowFrame burrow raw => exact .refl s
  | unregisterBurrow burrow => exact ages_unregisterBurrow s burrow
  | closeBurrow b =>
    unfold step closeBurrow
    dsimp only
    split
    · exact .refl s
    · exact ages_unregisterBurrow s _
  | nudgeBurrows => exact .refl s
  | registerClient expiresAt =>
    unfold step registerClient
    dsimp only
    split
    · exact ⟨Nat.le_succ _, fun _ _ h => .inl h, fun _ e' h => .inl ⟨e', h, rfl⟩⟩
    · refine ⟨Nat.le_succ _, fun _ _ h => .inl h, fun id e' he' => ?_⟩
      rw [OrdMap.get_set] at he'
      split at he'
      · obtain rfl := Option.some.inj he'
        exact .inr (Nat.le_refl _)
      · exact .inl ⟨e', he', rfl⟩
  | clientFrame client raw =>
    unfold step onClientFrame
    dsimp only
    split
    · exact .refl s
    · rename_i e he
      obtain ⟨hget, -⟩ := entryOf_eq_some.1 he
      repeat' split
      all_goals try exact .refl s
      refine ⟨Nat.le_refl _, fun _ _ h => .inl h, fun id e' he' => .inl ?_⟩
      unfold bindClientToBurrow at he'
      rw [OrdMap.get_set] at he'
      split at he'
      · rename_i hid
        obtain rfl := Option.some.inj he'
        exact ⟨e, hid ▸ hget, rfl⟩
      · exact ⟨e', he', rfl⟩
  | unregisterClient client => exact ages_unregisterClient s client
  | closeExpiredClients now => exact ages_closeExpired now _ s

theorem ages_after (inputs later : List Input) : Ages (after D parse inputs) (after D parse (inputs ++ later)) := by
  induction later using List.reverseRecOn with
  | nil => rw [List.append_nil]; exact .refl _
  | append_singleton later i ih =>
    rw [← List.append_assoc, after_concat]
    exact ih.trans (ages_step parse _ i)

theorem Ages.isCurrent {s s' : RelayHub} (h : Ages s s') {burrow : BurrowConn} (hlt : burrow.ref < s.nextRef)
    (hgone : s.isCurrent burrow = false) : s'.isCurrent burrow = false := by
  unfold RelayHub.isCurrent at hgone ⊢
  rw [decide_eq_false_iff_not] at hgone ⊢
  intro hσ
  rcases h.burrows _ _ hσ with hold | hnew
  · exact hgone hold
  · exact absurd hlt (Nat.not_lt.2 hnew)

theorem Ages.entryOf {s s' : RelayHub} (h : Ages s s') {client : ClientConn} (hlt : client.ref < s.nextRef)
    (hgone : s.entryOf client = none) : s'.entryOf client = none := by
  cases he' : s'.entryOf client with
  | none => rfl
  | some e' =>
    obtain ⟨hget', href'⟩ := entryOf_eq_some.1 he'
    rcases h.clients _ e' hget' with ⟨e, he, href⟩ | hnew
    · rw [entryOf_eq_some.2 ⟨he, href.trans href'⟩] at hgone
      cases hgone
    · rw [href'] at hnew
      exact absurd hlt (Nat.not_lt.2 hnew)

theorem step_displaced {burrow : BurrowConn} (h : s.isCurrent burrow = false) (raw : JsString) :
    step D parse s (.burrowFrame burrow raw) = (s, []) ∧ step D parse s (.unregisterBurrow burrow) = (s, []) := by
  have hnot : (!s.isCurrent burrow) = true := by rw [h]; rfl
  exact ⟨congrArg (Prod.mk s) (if_pos hnot), if_pos hnot⟩

theorem step_unregistered {client : ClientConn} (h : s.entryOf client = none) (raw : JsString) :
    step D parse s (.clientFrame client raw) = (s, []) ∧ step D parse s (.unregisterClient client) = (s, []) := by
  constructor
  · show onClientFrame parse s client raw = (s, [])
    unfold onClientFrame
    rw [h]
  · show s.unregisterClient client = (s, [])
    unfold unregisterClient
    rw [h]

/-! ## What is forwarded -/

/-- **A Client's frame reaches only the socket that speaks for the Burrow it names**, and but for an `init` only one the
Client has been bound to since an `init` forwarded to it. -/
def ClientFramesReach (D : ClientIds) (inputs : List Input) (i : Input) : Prop :=
  ∀ σ clientId b kind id step' ct,
    .toBurrow σ (.e2e clientId b kind id step' ct) ∈ (step D parse (after D parse inputs) i).2 →
    ∃ ref raw, i = .clientFrame (conn D ref) raw ∧ clientId = D.newClientId ref ∧
      readClientFrame parse raw = .ok ⟨b, kind, id, step', ct⟩ ∧ (after D parse inputs).burrows.get b = some σ ∧
      (step' = .init ∨ Held parse D inputs ref b σ)

/-- **A Burrow's frame reaches a Client only from the socket that speaks for it**, while the Client is bound to it. -/
def BurrowFramesReach (D : ClientIds) (inputs : List Input) (i : Input) : Prop :=
  ∀ ref b kind id step' ct, .toClient ref (.e2e b kind id step' ct) ∈ (step D parse (after D parse inputs) i).2 →
    ∃ σ raw, i = .burrowFrame ⟨b, σ⟩ raw ∧
      readBurrowFrame parse raw = some ⟨D.newClientId ref, kind, id, step', ct⟩ ∧
      (after D parse inputs).burrows.get b = some σ ∧ binding D (after D parse inputs) ref = some (b, σ)

def Out.forwards : Out → Bool
  | .toBurrow _ (.e2e ..) => true
  | .toClient _ (.e2e ..) => true
  | _                     => false

theorem forwards_dropClientsOf (s : RelayHub) (b : JsString) : ∀ o ∈ (s.dropClientsOf b).2, Out.forwards o = false := by
  intro o ho
  obtain ⟨e, -, rfl⟩ := List.mem_map.1 ho
  rfl

theorem forwards_unregisterBurrow (s : RelayHub) (burrow : BurrowConn) :
    ∀ o ∈ (s.unregisterBurrow burrow).2, Out.forwards o = false := by
  unfold unregisterBurrow
  split
  · exact fun _ ho => absurd ho List.not_mem_nil
  · exact forwards_dropClientsOf _ _

theorem forwards_tellGone (s : RelayHub) (clientId : JsString) (b : Option JsString) :
    ∀ o ∈ s.tellGone clientId b, Out.forwards o = false := by
  intro o ho
  unfold tellGone at ho
  split at ho
  · exact absurd ho List.not_mem_nil
  · rw [List.mem_singleton.1 ho]
    rfl

theorem forwards_unregisterClient (s : RelayHub) (client : ClientConn) :
    ∀ o ∈ (s.unregisterClient client).2, Out.forwards o = false := by
  unfold unregisterClient
  split
  · exact fun _ ho => absurd ho List.not_mem_nil
  · exact forwards_tellGone s _ _

theorem forwards_closeExpired (now : Int) : ∀ (l : List (JsString × ClientEntry)) (s : RelayHub),
    ∀ o ∈ (Mealy.run (expireClient now) s l).2, Out.forwards o = false
  | [], _ => fun _ ho => absurd ho List.not_mem_nil
  | client :: l, s => by
    intro o ho
    rw [Mealy.run_cons] at ho
    rcases List.mem_append.1 ho with ho | ho
    · unfold expireClient at ho
      split at ho
      · exact absurd ho List.not_mem_nil
      · rcases List.mem_append.1 ho with ho | ho
        · exact forwards_unregisterClient s _ o ho
        · rw [List.mem_singleton.1 ho]
          rfl
    · exact forwards_closeExpired now l _ o ho

def Input.isFrame : Input → Bool
  | .clientFrame _ _ => true
  | .burrowFrame _ _ => true
  | _                => false

theorem forwards_step (s : RelayHub) {i : Input} (hi : i.isFrame = false) :
    ∀ o ∈ (step D parse s i).2, Out.forwards o = false := by
  cases i with
  | registerBurrow b first =>
    intro o ho
    have hsent : ∀ o ∈ first.toList.map (fun frame => Out.toBurrow s.nextRef (.policy frame)), Out.forwards o = false := by
      intro o ho
      obtain ⟨frame, -, rfl⟩ := List.mem_map.1 ho
      rfl
    unfold step registerBurrow at ho
    dsimp only at ho
    split at ho
    · exact hsent o ho
    · rcases List.mem_append.1 ho with ho | ho
      · rcases List.mem_append.1 ho with ho | ho
        · exact hsent o ho
        · exact forwards_dropClientsOf _ _ o ho
      · rw [List.mem_singleton.1 ho]
        rfl
  | burrowFrame burrow raw => cases hi
  | unregisterBurrow burrow => exact forwards_unregisterBurrow s burrow
  | closeBurrow b =>
    intro o ho
    unfold step closeBurrow at ho
    dsimp only at ho
    split at ho
    · exact absurd ho List.not_mem_nil
    · rcases List.mem_append.1 ho with ho | ho
      · exact forwards_unregisterBurrow s _ o ho
      · rw [List.mem_singleton.1 ho]
        rfl
  | nudgeBurrows =>
    intro o ho
    obtain ⟨σ, -, rfl⟩ := List.mem_map.1 ho
    rfl
  | registerClient expiresAt =>
    intro o ho
    unfold step registerClient at ho
    dsimp only at ho
    split at ho
    · rw [List.mem_singleton.1 ho]
      rfl
    · exact absurd ho List.not_mem_nil
  | clientFrame client raw => cases hi
  | unregisterClient client => exact forwards_unregisterClient s client
  | closeExpiredClients now => exact forwards_closeExpired now _ s

theorem clientFramesReach (inputs : List Input) (i : Input) : ClientFramesReach parse D inputs i := by
  intro σ clientId b kind id step' ct hin
  have hwf := wellFormed_after (D := D) parse inputs
  cases i with
  | clientFrame client raw =>
    rcases onClientFrame_cases parse hwf client raw with ⟨-, heq⟩ | ⟨hconn, hreads⟩
    · rw [show step D parse (after D parse inputs) (.clientFrame client raw) = (after D parse inputs, []) from heq] at hin
      exact absurd hin List.not_mem_nil
    · have hin : Out.toBurrow σ (.e2e clientId b kind id step' ct) ∈
        (onClientFrame parse (after D parse inputs) client raw).2 := hin
      -- the one frame forwarded is the Client's own
      have hown : ∀ {burrow : Ref} {frame : E2eClientFrame}, Out.toBurrow σ (.e2e clientId b kind id step' ct) =
          .toBurrow burrow (toBurrowEnvelope (D.newClientId client.ref) frame) →
          clientId = D.newClientId client.ref ∧ frame = ⟨b, kind, id, step', ct⟩ ∧ burrow = σ := by
        intro burrow frame heq
        obtain ⟨rfl, henv⟩ := Out.toBurrow.inj heq
        unfold toBurrowEnvelope at henv
        obtain ⟨hid, rfl, rfl, rfl, rfl, rfl⟩ := RelayToBurrowFrame.e2e.inj henv
        exact ⟨hid, rfl, rfl⟩
      generalize (onClientFrame parse (after D parse inputs) client raw).1 = s' at hreads
      generalize (onClientFrame parse (after D parse inputs) client raw).2 = outs at hin hreads
      refine ⟨client.ref, raw, congrArg (Input.clientFrame · raw) hconn, ?_⟩
      cases hreads with
      | answered outs ho =>
        rcases ho _ hin with heq | ⟨text, heq⟩
        · cases heq
        · cases heq
      | transport e frame burrow he hr hb hbound =>
        obtain ⟨hid, rfl, rfl⟩ := hown (List.mem_singleton.1 hin)
        exact ⟨hid, hr, hb, .inr (held_of_binding parse inputs (binding_eq_some.2 ⟨e, he, hbound, hb⟩))⟩
      | init e frame burrow he hr hb hinit =>
        rcases List.mem_append.1 hin with hin | hin
        · split at hin
          · exact absurd hin List.not_mem_nil
          · have hnot := forwards_tellGone _ _ _ _ hin
            cases hnot
        · obtain ⟨hid, rfl, rfl⟩ := hown (List.mem_singleton.1 hin)
          exact ⟨hid, hr, hb, .inl hinit⟩
  | burrowFrame burrow raw =>
    have hin : Out.toBurrow σ (.e2e clientId b kind id step' ct) ∈ onBurrowFrame parse (after D parse inputs) burrow raw := hin
    unfold onBurrowFrame at hin
    repeat' split at hin
    all_goals first | exact absurd hin List.not_mem_nil | exact Out.noConfusion (List.mem_singleton.1 hin)
  | _ =>
    have hnot := forwards_step parse (after D parse inputs) rfl _ hin
    cases hnot

theorem burrowFramesReach (inputs : List Input) (i : Input) : BurrowFramesReach parse D inputs i := by
  intro ref b kind id step' ct hin
  have hwf := wellFormed_after (D := D) parse inputs
  cases i with
  | clientFrame client raw =>
    rcases onClientFrame_cases parse hwf client raw with ⟨-, heq⟩ | ⟨-, hreads⟩
    · rw [show step D parse (after D parse inputs) (.clientFrame client raw) = (after D parse inputs, []) from heq] at hin
      exact absurd hin List.not_mem_nil
    · have hin : Out.toClient ref (.e2e b kind id step' ct) ∈ (onClientFrame parse (after D parse inputs) client raw).2 := hin
      generalize (onClientFrame parse (after D parse inputs) client raw).1 = s' at hreads
      generalize (onClientFrame parse (after D parse inputs) client raw).2 = outs at hin hreads
      cases hreads with
      | answered outs ho =>
        rcases ho _ hin with heq | ⟨text, heq⟩
        · cases heq
        · cases heq
      | transport e frame burrow he hr hb hbound => cases List.mem_singleton.1 hin
      | init e frame burrow he hr hb hinit =>
        rcases List.mem_append.1 hin with hin | hin
        · split at hin
          · exact absurd hin List.not_mem_nil
          · have hnot := forwards_tellGone _ _ _ _ hin
            cases hnot
        · cases List.mem_singleton.1 hin
  | burrowFrame burrow raw =>
    have hin : Out.toClient ref (.e2e b kind id step' ct) ∈ onBurrowFrame parse (after D parse inputs) burrow raw := hin
    unfold onBurrowFrame at hin
    split at hin
    · exact absurd hin List.not_mem_nil
    · rename_i hcurrent
      have hcurrent : (after D parse inputs).burrows.get burrow.burrowId = some burrow.ref := by
        simpa [isCurrent] using hcurrent
      split at hin
      · cases List.mem_singleton.1 hin
      · split at hin
        · exact absurd hin List.not_mem_nil
        · rename_i frame hread
          split at hin
          · exact absurd hin List.not_mem_nil
          · rename_i client hget
            split at hin
            · exact absurd hin List.not_mem_nil
            · rename_i hbound
              have hbound : client.burrowId = some burrow.burrowId := Decidable.not_not.1 hbound
              obtain ⟨rfl, henv⟩ := Out.toClient.inj (List.mem_singleton.1 hin)
              unfold toClientEnvelope at henv
              obtain ⟨rfl, rfl, rfl, rfl, rfl⟩ := RelayToClientFrame.e2e.inj henv
              have hid := hwf.named _ client hget
              refine ⟨burrow.ref, raw, rfl, ?_, hcurrent, binding_eq_some.2 ⟨client, entryOf_eq_some.2 ⟨?_, rfl⟩, hbound,
                hcurrent⟩⟩
              · rw [hread, ← hid]
              · rw [show (conn D client.ref).clientId = D.newClientId client.ref from rfl, ← hid]
                exact hget
  | _ =>
    have hnot := forwards_step parse (after D parse inputs) rfl _ hin
    cases hnot

/-- **The hub routes within its bindings.**  After every sequence of calls: a Client is bound only to a Burrow that is
online; what the next call forwards stays within a binding; each binding it ends is told once; and a socket that no longer
speaks for its Burrow, or is no longer registered, does nothing from then on. -/
theorem relayHub_routes (inputs : List Input) :
    (∀ id e b, (after D parse inputs).clients.get id = some e → e.burrowId = some b →
      (after D parse inputs).isBurrowOnline b = true) ∧
    (∀ i, ClientFramesReach parse D inputs i ∧ BurrowFramesReach parse D inputs i ∧
      Tells D (after D parse inputs) (after D parse (inputs ++ [i])) (step D parse (after D parse inputs) i).2) ∧
    (∀ later burrow raw, burrow.ref < (after D parse inputs).nextRef → (after D parse inputs).isCurrent burrow = false →
      step D parse (after D parse (inputs ++ later)) (.burrowFrame burrow raw) = (after D parse (inputs ++ later), []) ∧
      step D parse (after D parse (inputs ++ later)) (.unregisterBurrow burrow) = (after D parse (inputs ++ later), [])) ∧
    (∀ later client raw, client.ref < (after D parse inputs).nextRef → (after D parse inputs).entryOf client = none →
      step D parse (after D parse (inputs ++ later)) (.clientFrame client raw) = (after D parse (inputs ++ later), []) ∧
      step D parse (after D parse (inputs ++ later)) (.unregisterClient client) = (after D parse (inputs ++ later), [])) := by
  have hwf := wellFormed_after (D := D) parse inputs
  refine ⟨hwf.online, fun i => ⟨clientFramesReach parse inputs i, burrowFramesReach parse inputs i, ?_⟩,
    fun later burrow raw hlt hgone => ?_, fun later client raw hlt hgone => ?_⟩
  · rw [after_concat]
    exact (step_tells parse hwf i).2
  · exact step_displaced parse ((ages_after parse inputs later).isCurrent hlt hgone) raw
  · exact step_unregistered parse ((ages_after parse inputs later).entryOf hlt hgone) raw

end RelayHub
end Relay
end Dormouse
