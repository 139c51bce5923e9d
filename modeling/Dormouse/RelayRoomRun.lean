import Dormouse.RelayRoom
import Mathlib.Data.List.Induction
/-!
# RelayRoomRun — the generation guard of the hosted relay

A Client's binding is a `burrowId`, and the socket it was made with is the one its last `init` was forwarded to (`lastInit`).
The two agree as long as one socket of a Burrow at most is not torn down (`Guarded`).  That is what an open keeps by
retiring the one it displaces, which it finds only if that is still `OPEN`: a socket that has left `OPEN` and whose close
event is to come is missed (`OpensClean`), and then both halves of the guard fail.
-/
namespace Dormouse
namespace Relay
namespace Role

@[simp] theorem bind_bind (r : Role) (b b' : Option JsString) : (r.bind b).bind b' = r.bind b' := by
  cases r with
  | burrow _       => rfl
  | client _ _ _ _ => rfl

theorem eq_burrow_of_bind {r : Role} {o : Option JsString} {b : JsString} (h : r.bind o = .burrow b) : r = .burrow b := by
  cases r with
  | burrow _ => exact h
  | client _ _ _ _ => cases h

theorem bound_of_bind_none {r : Role} {b : JsString} (h : (r.bind none).bound = some b) : False := by
  cases r with
  | burrow _ => cases h
  | client _ _ _ _ => cases h

end Role

namespace RelayRoom

/-- The Burrow and the socket an `init` of the Client was forwarded to. -/
def initOf (clientId : JsString) : Out → Option (JsString × Ref)
  | .toBurrow σ (.e2e id b _ _ .init _) => if id = clientId then some (b, σ) else none
  | _                                   => none

def lastInit (clientId : JsString) (log : List Out) : Option (JsString × Ref) := (log.filterMap (initOf clientId)).getLast?

theorem lastInit_append (clientId : JsString) (log outs : List Out) :
    lastInit clientId (log ++ outs) = (lastInit clientId outs).or (lastInit clientId log) := by
  unfold lastInit
  rw [List.filterMap_append, List.getLast?_append]

/-- No `init` is forwarded. -/
def NoInit (outs : List Out) : Prop := ∀ o ∈ outs, ∀ clientId, initOf clientId o = none

theorem lastInit_of_noInit {outs : List Out} (h : NoInit outs) (clientId : JsString) (log : List Out) :
    lastInit clientId (log ++ outs) = lastInit clientId log := by
  have hnil : outs.filterMap (initOf clientId) = [] := List.filterMap_eq_nil_iff.2 (fun o ho => h o ho clientId)
  rw [lastInit_append]
  simp [lastInit, hnil]

theorem noInit_nil : NoInit [] := fun _ h => absurd h List.not_mem_nil

theorem noInit_one {o : Out} (h : ∀ clientId, initOf clientId o = none) : NoInit [o] := by
  intro o' ho
  rw [List.mem_singleton.1 ho]
  exact h

theorem NoInit.append {outs outs' : List Out} (h : NoInit outs) (h' : NoInit outs') : NoInit (outs ++ outs') := by
  intro o ho
  rcases List.mem_append.1 ho with ho | ho
  · exact h o ho
  · exact h' o ho

def Standing (s : RelayRoom) (b : JsString) (σ : Ref) : Prop :=
  ∃ v, s.sockets.get σ = some v ∧ v.conn.role = .burrow b ∧ v.conn.retired = false

structure Guarded (D : ClientIds) (s : RelayRoom) (log : List Out) : Prop where
  named : ∀ ref w id session expiresAt b, s.sockets.get ref = some w → w.conn.role = .client id session expiresAt b →
    id = D.newClientId ref
  below : ∀ ref w, s.sockets.get ref = some w → ref < s.nextRef
  /-- One socket of a Burrow at most is not torn down. -/
  alone : ∀ b σ σ', Standing s b σ → Standing s b σ' → σ = σ'
  /-- A registered Client is bound to the Burrow its last `init` went to, and the socket it went to stands. -/
  bound : ∀ ref w b, s.sockets.get ref = some w → w.registered = true → w.conn.role.bound = some b →
    ∃ σ, Standing s b σ ∧ lastInit (D.newClientId ref) log = some (b, σ)

variable {D : ClientIds}
variable {s : RelayRoom}

theorem Guarded.says {log : List Out} (h : Guarded D s log) {outs : List Out} (ho : NoInit outs) :
    Guarded D s (log ++ outs) := by
  refine ⟨h.named, h.below, h.alone, fun ref w b hw hr hb => ?_⟩
  obtain ⟨σ, hσ, hlast⟩ := h.bound ref w b hw hr hb
  exact ⟨σ, hσ, (lastInit_of_noInit ho _ log).trans hlast⟩

/-- Sockets stay what they are; some are torn down or leave `OPEN`, some Clients are unbound. -/
structure Wanes (s s' : RelayRoom) : Prop where
  next : s.nextRef ≤ s'.nextRef
  each : ∀ ref w', s'.sockets.get ref = some w' → ∃ w, s.sockets.get ref = some w ∧
    (w'.conn.retired = false → w.conn.retired = false) ∧ (w'.registered = true → w.registered = true) ∧
    (w'.conn.role = w.conn.role ∨ w'.conn.role = w.conn.role.bind none)
  /-- A socket torn down takes the bindings of its Burrow with it. -/
  torn : ∀ b σ, Standing s b σ → Standing s' b σ ∨
    ∀ ref w', s'.sockets.get ref = some w' → w'.registered = true → w'.conn.role.bound ≠ some b

theorem Wanes.refl (s : RelayRoom) : Wanes s s :=
  ⟨Nat.le_refl _, fun _ w hw => ⟨w, hw, fun h => h, fun h => h, .inl rfl⟩, fun _ _ h => .inl h⟩

variable {b : JsString}

theorem Wanes.standing {s s' : RelayRoom} (h : Wanes s s') {σ : Ref} (hσ : Standing s' b σ) :
    Standing s b σ := by
  obtain ⟨w', hw', hrole', hret'⟩ := hσ
  obtain ⟨w, hw, hret, -, hrole⟩ := h.each σ w' hw'
  refine ⟨w, hw, ?_, hret hret'⟩
  rcases hrole with hrole | hrole
  · exact hrole ▸ hrole'
  · exact Role.eq_burrow_of_bind (hrole ▸ hrole')

theorem Wanes.bound {s s' : RelayRoom} (h : Wanes s s') {ref : Ref} {w' : Socket} {b : JsString}
    (hw' : s'.sockets.get ref = some w') (hr' : w'.registered = true) (hb' : w'.conn.role.bound = some b) :
    ∃ w, s.sockets.get ref = some w ∧ w.registered = true ∧ w.conn.role.bound = some b := by
  obtain ⟨w, hw, -, hr, hrole⟩ := h.each ref w' hw'
  refine ⟨w, hw, hr hr', ?_⟩
  rcases hrole with hrole | hrole
  · rw [← hrole]
    exact hb'
  · rw [hrole] at hb'
    exact (Role.bound_of_bind_none hb').elim

theorem Wanes.trans {s s' s'' : RelayRoom} (h : Wanes s s') (h' : Wanes s' s'') : Wanes s s'' := by
  refine ⟨h.next.trans h'.next, fun ref w'' hw'' => ?_, fun b σ hσ => ?_⟩
  · obtain ⟨w', hw', hret', hreg', hrole'⟩ := h'.each ref w'' hw''
    obtain ⟨w, hw, hret, hreg, hrole⟩ := h.each ref w' hw'
    refine ⟨w, hw, fun h => hret (hret' h), fun h => hreg (hreg' h), ?_⟩
    rcases hrole' with hrole' | hrole'
    · rw [hrole']
      exact hrole
    · refine .inr ?_
      rcases hrole with hrole | hrole
      · rw [hrole', hrole]
      · rw [hrole', hrole, Role.bind_bind]
  · rcases h.torn b σ hσ with hσ' | hnone
    · exact h'.torn b σ hσ'
    · refine .inr (fun ref w'' hw'' hr'' hb'' => ?_)
      obtain ⟨w', hw', hr', hb'⟩ := h'.bound hw'' hr'' hb''
      exact hnone ref w' hw' hr' hb'

theorem Guarded.wanes {s s' : RelayRoom} {log outs : List Out} (h : Guarded D s log) (hw : Wanes s s') (ho : NoInit outs) :
    Guarded D s' (log ++ outs) := by
  refine Guarded.says ?_ ho
  refine ⟨fun ref w' id session expiresAt b hw' hrole' => ?_, fun ref w' hw' => ?_, fun b σ σ' hσ hσ' => ?_,
    fun ref w' b hw' hr' hb' => ?_⟩
  · obtain ⟨w, hget, -, -, hrole⟩ := hw.each ref w' hw'
    rw [hrole'] at hrole
    cases hr : w.conn.role with
    | burrow _ =>
      rw [hr] at hrole
      rcases hrole with hrole | hrole
      · cases hrole
      · cases hrole
    | client id' session' expiresAt' b' =>
      rw [hr] at hrole
      have hid : id = id' := by
        rcases hrole with hrole | hrole
        · exact (Role.client.inj hrole).1
        · exact (Role.client.inj hrole).1
      rw [hid]
      exact h.named ref w id' session' expiresAt' b' hget hr
  · obtain ⟨w, hget, -⟩ := hw.each ref w' hw'
    exact (h.below ref w hget).trans_le hw.next
  · exact h.alone b σ σ' (hw.standing hσ) (hw.standing hσ')
  · obtain ⟨w, hget, hr, hb⟩ := hw.bound hw' hr' hb'
    obtain ⟨σ, hσ, hlast⟩ := h.bound ref w b hget hr hb
    rcases hw.torn b σ hσ with hstands | hnone
    · exact ⟨σ, hstands, hlast⟩
    · exact absurd hb' (hnone ref w' hw' hr')

/-! ## What the object does to its sockets -/

theorem get_modify (s : RelayRoom) (ref ref' : Ref) (f : Socket → Socket) :
    (s.modify ref f).sockets.get ref' = if ref' = ref then (s.sockets.get ref').map f else s.sockets.get ref' := by
  unfold modify
  cases hw : s.sockets.get ref with
  | none =>
    by_cases href : ref' = ref
    · simp [href, hw]
    · simp [href]
  | some w =>
    by_cases href : ref' = ref
    · simp [href, hw]
    · simp [href, OrdMap.get_set_ne]

@[simp] theorem nextRef_modify (s : RelayRoom) (ref : Ref) (f : Socket → Socket) : (s.modify ref f).nextRef = s.nextRef := by
  unfold modify
  split
  · rfl
  · rfl

theorem wanes_modify (s : RelayRoom) (ref : Ref) {f : Socket → Socket} (hrole : ∀ w, (f w).conn.role = w.conn.role)
    (hret : ∀ w, (f w).conn.retired = w.conn.retired) (hreg : ∀ w, (f w).registered = true → w.registered = true) :
    Wanes s (s.modify ref f) := by
  have hget := get_modify s ref (f := f)
  refine ⟨(nextRef_modify s ref f).ge, fun ref' w' hw' => ?_, fun b σ hσ => .inl ?_⟩
  · rw [hget] at hw'
    split at hw'
    · obtain ⟨w, hw, rfl⟩ := Option.map_eq_some_iff.1 hw'
      exact ⟨w, hw, fun h => (hret w).symm.trans h, hreg w, .inl (hrole w)⟩
    · exact ⟨w', hw', fun h => h, fun h => h, .inl rfl⟩
  · obtain ⟨v, hv, hr, hret'⟩ := hσ
    by_cases href : σ = ref
    · exact ⟨f v, by rw [hget, if_pos href, hv]; rfl, (hrole v).trans hr, (hret v).trans hret'⟩
    · exact ⟨v, by rw [hget, if_neg href, hv], hr, hret'⟩

theorem wanes_leave (s : RelayRoom) (ref : Ref) : Wanes s (s.modify ref ({ · with isOpen := false })) :=
  wanes_modify s ref (f := ({ · with isOpen := false })) (fun _ => rfl) (fun _ => rfl) (fun _ h => nomatch h)

theorem wanes_checked (s : RelayRoom) (ref : Ref) (start : Int) : Wanes s (s.checked ref start) := by
  refine wanes_modify s ref (fun w => ?_) (fun w => ?_) (fun w h => ?_)
  · split
    · rfl
    · rfl
  · split
    · rfl
    · rfl
  · split at h
    · exact h
    · exact h

theorem get_dropped (s : RelayRoom) (b : JsString) (ref : Ref) :
    (s.dropClientsOf b).1.sockets.get ref = (s.sockets.get ref).map (fun w =>
      if w.registered && w.conn.role.bound = some b then w.withRole (Role.bind none) else w) :=
  OrdMap.get_mapValues _ _ _

variable {ref : Ref}

theorem wanes_drop (s : RelayRoom) (b : JsString) {v : Socket} (hv : s.sockets.get ref = some v)
    (hrole : v.conn.role = .burrow b) :
    Wanes s ((s.modify ref (fun w => { w with conn := { w.conn with retired := true } })).dropClientsOf b).1 := by
  have hget : ∀ ref' w', ((s.modify ref (fun w => { w with conn := { w.conn with retired := true } })).dropClientsOf
      b).1.sockets.get ref' = some w' → ∃ w, s.sockets.get ref' = some w ∧
        (ref' = ref ∧ w'.conn.retired = true ∨ w'.conn.retired = w.conn.retired) ∧
        (w'.registered = true → w.registered = true ∧ w'.conn.role.bound ≠ some b) ∧
        (w'.conn.role = w.conn.role ∨ w'.conn.role = w.conn.role.bind none) := by
    intro ref' w' hw'
    rw [get_dropped, get_modify, Option.map_eq_some_iff] at hw'
    obtain ⟨x, hx, rfl⟩ := hw'
    by_cases href : ref' = ref
    · rw [if_pos href, href, hv, Option.map_some] at hx
      obtain rfl := Option.some.inj hx
      refine ⟨v, href ▸ hv, .inl ⟨href, ?_⟩, fun hr => ?_, ?_⟩
      · split
        · rfl
        · rfl
      · split at hr
        · simp [Socket.registered, Socket.withRole] at hr
        · simp [Socket.registered] at hr
      · split
        · exact .inr rfl
        · exact .inl rfl
    · rw [if_neg href] at hx
      refine ⟨x, hx, .inr ?_, fun hr => ?_, ?_⟩
      · split
        · rfl
        · rfl
      · split at hr
        · rename_i hb
          rw [if_pos hb]
          exact ⟨hr, fun h => Role.bound_of_bind_none h⟩
        · rename_i hb
          rw [if_neg hb]
          exact ⟨hr, fun h => hb (by rw [hr, h]; simp)⟩
      · split
        · exact .inr rfl
        · exact .inl rfl
  have hkept : ∀ b' σ, b' ≠ b → Standing s b' σ → Standing ((s.modify ref
      (fun w => { w with conn := { w.conn with retired := true } })).dropClientsOf b).1 b' σ := by
    rintro b' σ hne ⟨w, hw, hr, hret⟩
    have hσ : σ ≠ ref := by
      rintro rfl
      obtain rfl := Option.some.inj (hv.symm.trans hw)
      exact hne (Role.burrow.inj (hr.symm.trans hrole))
    refine ⟨w, ?_, hr, hret⟩
    rw [get_dropped, get_modify, if_neg hσ, hw, Option.map_some, if_neg]
    rw [hr]
    simp [Role.bound]
  refine ⟨(nextRef_modify s ref _).ge, fun ref' w' hw' => ?_, fun b' σ hσ => ?_⟩
  · obtain ⟨w, hw, hret, hreg, hr⟩ := hget ref' w' hw'
    refine ⟨w, hw, fun h => ?_, fun h => (hreg h).1, hr⟩
    rcases hret with ⟨-, htrue⟩ | heq
    · rw [htrue] at h
      cases h
    · exact heq ▸ h
  · by_cases hb : b' = b
    · refine .inr (fun ref' w' hw' hr' => ?_)
      obtain ⟨w, -, -, hreg, -⟩ := hget ref' w' hw'
      rw [hb]
      exact (hreg hr').2
    · exact .inl (hkept b' σ hb hσ)

theorem wanes_mark (s : RelayRoom) {v : Socket} (hv : s.sockets.get ref = some v) (hrole : ∀ b, v.conn.role ≠ .burrow b) :
    Wanes s (s.modify ref (fun w => { w with conn := { w.conn with retired := true } })) := by
  refine ⟨(nextRef_modify s ref _).ge, fun ref' w' hw' => ?_, fun b σ hσ => .inl ?_⟩
  · rw [get_modify] at hw'
    split at hw'
    · obtain ⟨w, hw, rfl⟩ := Option.map_eq_some_iff.1 hw'
      refine ⟨w, hw, fun h => (by cases h), fun h => ?_, .inl rfl⟩
      simp [Socket.registered] at h
    · exact ⟨w', hw', fun h => h, fun h => h, .inl rfl⟩
  · obtain ⟨w, hw, hr, hret⟩ := hσ
    refine ⟨w, ?_, hr, hret⟩
    rw [get_modify, if_neg, hw]
    rintro rfl
    obtain rfl := Option.some.inj (hv.symm.trans hw)
    exact hrole b hr

/-- **A teardown** marks its socket, and lets go of the bindings of a Burrow. -/
theorem wanes_unregister (s : RelayRoom) (ref : Ref) : Wanes s (s.unregister ref).1 := by
  unfold unregister
  cases hw : s.sockets.get ref with
  | none => exact .refl s
  | some w =>
    dsimp only
    split
    · rename_i b hrole
      exact wanes_drop s b hw hrole
    · rename_i hrole
      exact wanes_mark s hw (fun b h => by rw [hrole] at h; cases h)

theorem noInit_unregister (s : RelayRoom) (ref : Ref) : NoInit (s.unregister ref).2 := by
  unfold unregister
  split
  · exact noInit_nil
  · dsimp only
    split
    · intro o ho clientId
      obtain ⟨e, -, rfl⟩ := List.mem_map.1 ho
      rfl
    · unfold tellGone
      split
      · exact noInit_nil
      · exact noInit_one (fun _ => rfl)

theorem wanes_retire (s : RelayRoom) (ref : Ref) (code : Nat) (reason : JsString) : Wanes s (s.retire ref code reason).1 :=
  (wanes_unregister s ref).trans (wanes_leave _ ref)

theorem noInit_retire (s : RelayRoom) (ref : Ref) (code : Nat) (reason : JsString) : NoInit (s.retire ref code reason).2 :=
  (noInit_unregister s ref).append (noInit_one (fun _ => rfl))

def Fades (r : RelayRoom × List Out) (s : RelayRoom) : Prop := Wanes s r.1 ∧ NoInit r.2

theorem fades_retire (s : RelayRoom) (ref : Ref) (code : Nat) (reason : JsString) : Fades (s.retire ref code reason) s :=
  ⟨wanes_retire s ref code reason, noInit_retire s ref code reason⟩

theorem fades_run {α : Type} {f : RelayRoom → α → RelayRoom × List Out} (h : ∀ s a, Fades (f s a) s) :
    ∀ (l : List α) (s : RelayRoom), Fades (Mealy.run f s l) s
  | [], s => ⟨.refl s, noInit_nil⟩
  | a :: l, s => by
    obtain ⟨hw, hn⟩ := h s a
    obtain ⟨hw', hn'⟩ := fades_run h l (f s a).1
    exact ⟨hw.trans hw', hn.append hn'⟩

theorem fades_retireIf (p : Socket → Bool) (code : Nat) (reason : JsString) (s : RelayRoom) (e : Ref × Socket) :
    Fades (retireIf p code reason s e) s := by
  unfold retireIf
  split
  · exact fades_retire s _ _ _
  · exact ⟨.refl s, noInit_nil⟩

theorem fades_retireSilent (now : Int) (s : RelayRoom) (e : Ref × Socket) : Fades (retireSilent now s e) s := by
  unfold retireSilent
  split
  · exact fades_retire s _ _ _
  · exact ⟨.refl s, noInit_nil⟩

theorem fades_sweepClient (gone asked : List JsString) (start : Int) (s : RelayRoom) (e : Ref × Socket) :
    Fades (sweepClient gone asked start s e) s := by
  unfold sweepClient
  split
  · exact fades_retire s _ _ _
  · split
    · exact ⟨wanes_checked s _ start, noInit_nil⟩
    · exact ⟨.refl s, noInit_nil⟩

theorem fades_sweepBurrow (account : JsString) (rows : List BurrowRow) (start : Int) (s : RelayRoom) (b : JsString) :
    Fades (sweepBurrow account rows start s b) s := by
  unfold sweepBurrow
  split
  · exact ⟨.refl s, noInit_nil⟩
  · split
    · exact ⟨wanes_checked s _ start, noInit_one (fun _ => rfl)⟩
    · exact fades_retire s _ _ _
    · exact fades_retire s _ _ _

theorem fades_webSocketClose (s : RelayRoom) (ref : Ref) (code : Nat) : Fades (s.webSocketClose ref code) s := by
  unfold webSocketClose
  split
  · exact ⟨.refl s, noInit_nil⟩
  · dsimp only
    split
    · exact ⟨wanes_leave s ref, noInit_one (fun _ => rfl)⟩
    · exact ⟨(wanes_leave s ref).trans (wanes_unregister _ ref), (noInit_unregister _ ref).append (noInit_one (fun _ => rfl))⟩

/-! ## What is registered -/

theorem mem_held {p : Role → Bool} {e : Ref × Socket} :
    e ∈ s.held p ↔ s.sockets.get e.1 = some e.2 ∧ e.2.registered = true ∧ p e.2.conn.role = true := by
  unfold held
  rw [List.mem_filter, Bool.and_eq_true]
  exact and_congr_left' OrdMap.mem_entries

theorem burrow_some {e : Ref × Socket} (h : s.burrow b = some e) :
    s.sockets.get e.1 = some e.2 ∧ e.2.registered = true ∧ e.2.conn.role = .burrow b := by
  obtain ⟨hget, hreg, hname⟩ := mem_held.1 (List.mem_of_head? h)
  refine ⟨hget, hreg, ?_⟩
  cases hrole : e.2.conn.role with
  | burrow b' =>
    rw [hrole] at hname
    exact congrArg Role.burrow (of_decide_eq_true hname)
  | client _ _ _ _ =>
    rw [hrole] at hname
    cases hname

theorem standing_of_burrow {e : Ref × Socket} (h : s.burrow b = some e) : Standing s b e.1 := by
  obtain ⟨hget, hreg, hrole⟩ := burrow_some h
  refine ⟨e.2, hget, hrole, ?_⟩
  simp only [Socket.registered, Bool.and_eq_true, Bool.not_eq_true'] at hreg
  exact hreg.2

/-! ## Opening -/

/-- **No socket of the Burrow is left behind** by an open that is admitted: each that is not torn down is still `OPEN`. -/
def OpensClean (s : RelayRoom) : Input → Prop
  | .openBurrow account burrowId row _ _ => admitted account row = true → ∀ σ v, s.sockets.get σ = some v →
      v.conn.role = .burrow burrowId → v.conn.retired = false → v.isOpen = true
  | _                                    => True

theorem get_accept (s : RelayRoom) (role : Role) (openedAt checkedAt : Int) (ref : Ref) :
    (s.accept role openedAt checkedAt).sockets.get ref =
      if ref = s.nextRef then some ⟨⟨role, openedAt, checkedAt, false⟩, true, none⟩ else s.sockets.get ref :=
  OrdMap.get_set _ _ _ _

theorem Guarded.fresh {log : List Out} (h : Guarded D s log) : s.sockets.get s.nextRef = none := by
  cases hw : s.sockets.get s.nextRef with
  | none => rfl
  | some w => exact absurd (h.below _ w hw) (Nat.lt_irrefl _)

theorem Guarded.accept {s : RelayRoom} {log : List Out} (h : Guarded D s log) {role : Role} (openedAt checkedAt : Int)
    (hid : ∀ id session expiresAt b, role = .client id session expiresAt b → id = D.newClientId s.nextRef ∧ b = none)
    (hb : ∀ b, role = .burrow b → ∀ σ, ¬ Standing s b σ) : Guarded D (s.accept role openedAt checkedAt) log := by
  have hget := get_accept s role openedAt checkedAt
  have hkept : ∀ b σ, Standing s b σ → Standing (s.accept role openedAt checkedAt) b σ := by
    rintro b σ ⟨v, hv, hr⟩
    refine ⟨v, ?_, hr⟩
    rw [hget, if_neg (fun heq => ?_)]
    · exact hv
    · rw [heq, h.fresh] at hv
      cases hv
  have hstand : ∀ b σ, Standing (s.accept role openedAt checkedAt) b σ → Standing s b σ ∨
    (σ = s.nextRef ∧ role = .burrow b) := by
    rintro b σ ⟨v, hv, hr, hret⟩
    rw [hget] at hv
    split at hv
    · rename_i href
      obtain rfl := Option.some.inj hv
      exact .inr ⟨href, hr⟩
    · exact .inl ⟨v, hv, hr, hret⟩
  refine ⟨fun ref w id session expiresAt b hw hrole => ?_, fun ref w hw => ?_, fun b σ σ' hσ hσ' => ?_,
    fun ref w b hw hr hbound => ?_⟩
  · rw [hget] at hw
    split at hw
    · rename_i href
      obtain rfl := Option.some.inj hw
      rw [href]
      exact (hid id session expiresAt b hrole).1
    · exact h.named ref w id session expiresAt b hw hrole
  · rw [hget] at hw
    split at hw
    · rename_i href
      rw [href]
      exact Nat.lt_succ_self _
    · exact Nat.lt_succ_of_lt (h.below ref w hw)
  · rcases hstand b σ hσ with hold | ⟨rfl, hrole⟩
    · rcases hstand b σ' hσ' with hold' | ⟨rfl, hrole⟩
      · exact h.alone b σ σ' hold hold'
      · exact absurd hold (hb b hrole σ)
    · rcases hstand b σ' hσ' with hold' | ⟨rfl, -⟩
      · exact absurd hold' (hb b hrole σ')
      · rfl
  · rw [hget] at hw
    split at hw
    · obtain rfl := Option.some.inj hw
      cases role with
      | burrow _ => cases hbound
      | client id session expiresAt b' =>
        rw [show b' = none from (hid id session expiresAt b' rfl).2] at hbound
        cases hbound
    · obtain ⟨σ, hσ, hlast⟩ := h.bound ref w b hw hr hbound
      exact ⟨σ, hkept b σ hσ, hlast⟩

theorem not_standing_retired (s : RelayRoom) (b : JsString) (ref : Ref) (code : Nat) (reason : JsString) :
    ¬ Standing (s.retire ref code reason).1 b ref := by
  rintro ⟨v, hv, -, hret⟩
  unfold retire at hv
  dsimp only at hv
  rw [get_modify, if_pos rfl] at hv
  obtain ⟨x, hx, rfl⟩ := Option.map_eq_some_iff.1 hv
  have hmarked : x.conn.retired = true := by
    unfold unregister at hx
    cases hw : s.sockets.get ref with
    | none =>
      simp only [hw] at hx
      cases hx
    | some w =>
      simp only [hw] at hx
      split at hx
      · rw [get_dropped, get_modify, if_pos rfl, hw, Option.map_some, Option.map_some] at hx
        obtain rfl := Option.some.inj hx
        split
        · rfl
        · rfl
      · rw [get_modify, if_pos rfl, hw, Option.map_some] at hx
        obtain rfl := Option.some.inj hx
        rfl
  rw [show x.conn.retired = false from hret] at hmarked
  cases hmarked

theorem Guarded.openBurrow {s : RelayRoom} {log : List Out} (h : Guarded D s log) (account b : JsString)
    (row : Option (Option (JsString × Bool))) (checkedAt now : Int)
    (hclean : OpensClean s (.openBurrow account b row checkedAt now)) :
    Guarded D (s.openBurrow account b row checkedAt now).1 (log ++ (s.openBurrow account b row checkedAt now).2) := by
  unfold RelayRoom.openBurrow
  split
  · exact h.says noInit_nil
  · rename_i hadmitted
    have hclean := hclean (by simpa using hadmitted)
    split
    · rename_i hnone
      refine Guarded.says ?_ noInit_nil
      refine h.accept now checkedAt (fun _ _ _ _ heq => (nomatch heq)) (fun b' heq σ hσ => ?_)
      obtain rfl := Role.burrow.inj heq
      obtain ⟨v, hv, hrole, hret⟩ := hσ
      have hopen := hclean σ v hv hrole hret
      have hmem : (σ, v) ∈ s.held (Role.names b) :=
        mem_held.2 ⟨hv, by simp [Socket.registered, hopen, hret], by simp [hrole, Role.names]⟩
      rw [List.head?_eq_none_iff.1 hnone] at hmem
      exact absurd hmem List.not_mem_nil
    · rename_i existing hexisting
      have hgone := h.wanes (wanes_retire s existing.1 wsCloseBurrowReplaced wsCloseBurrowReplacedReason)
        (noInit_retire s existing.1 wsCloseBurrowReplaced wsCloseBurrowReplacedReason)
      refine hgone.accept now checkedAt (fun _ _ _ _ heq => (nomatch heq)) (fun b' heq σ hσ => ?_)
      obtain rfl := Role.burrow.inj heq
      have hbefore := (wanes_retire s existing.1 wsCloseBurrowReplaced wsCloseBurrowReplacedReason).standing hσ
      rw [h.alone b σ existing.1 hbefore (standing_of_burrow hexisting)] at hσ
      exact not_standing_retired s b existing.1 _ _ hσ

theorem Guarded.refuseSocket {s : RelayRoom} {log : List Out} (h : Guarded D s log) (code : Nat) (reason : JsString) :
    Guarded D (s.refuseSocket code reason).1 (log ++ (s.refuseSocket code reason).2) := by
  have hgrown : Guarded D { s with nextRef := s.nextRef + 1 } log :=
    ⟨h.named, fun ref w hw => Nat.lt_succ_of_lt (h.below ref w hw), h.alone, h.bound⟩
  exact hgrown.says (noInit_one (fun _ => rfl))

theorem Guarded.admitClient {s : RelayRoom} {log : List Out} (h : Guarded D s log) (session : JsString)
    (expiresAt checkedAt now : Int) : Guarded D (admitClient D s session expiresAt checkedAt now).1
      (log ++ (admitClient D s session expiresAt checkedAt now).2) := by
  unfold RelayRoom.admitClient
  split
  · exact h.refuseSocket _ _
  · refine Guarded.says ?_ noInit_nil
    refine h.accept now checkedAt (fun _ _ _ _ heq => ?_) (fun _ heq => (nomatch heq))
    obtain ⟨rfl, -, -, rfl⟩ := Role.client.inj heq
    exact ⟨rfl, rfl⟩

theorem Guarded.openClient {s : RelayRoom} {log : List Out} (h : Guarded D s log) (account session : JsString)
    (expiresAt : Int) (row : Option (Option (JsString × Bool))) (checkedAt now : Int) :
    Guarded D (openClient D s account session expiresAt row checkedAt now).1
      (log ++ (openClient D s account session expiresAt row checkedAt now).2) := by
  unfold RelayRoom.openClient
  split
  · exact h.refuseSocket _ _
  · split
    · exact h.says noInit_nil
    · split
      · exact h.refuseSocket _ _
      · split
        · obtain ⟨hw, hn⟩ := fades_run (fades_retireSilent now) (s.held Role.isClient) s
          dsimp only
          rw [← List.append_assoc]
          exact (h.wanes hw hn).admitClient session expiresAt checkedAt now
        · exact h.admitClient session expiresAt checkedAt now

/-! ## Frames -/

theorem Guarded.bind {s : RelayRoom} {log outs : List Out} (h : Guarded D s log) {ref σ : Ref} {w : Socket} {b : JsString}
    {frame : E2eClientFrame} (hw : s.sockets.get ref = some w) (hσ : Standing s b σ) (ho : NoInit outs)
    (hb : frame.burrowId = b) (hinit : frame.step = .init) :
    Guarded D (s.modify ref (·.withRole (Role.bind (some b))))
      (log ++ (outs ++ [.toBurrow σ (toBurrowEnvelope (D.newClientId ref) frame)])) := by
  have hget := get_modify s ref (f := (·.withRole (Role.bind (some b))))
  have hrole : ∀ ref' w', (s.modify ref (·.withRole (Role.bind (some b)))).sockets.get ref' = some w' →
      ∃ x, s.sockets.get ref' = some x ∧ w'.conn.retired = x.conn.retired ∧ w'.registered = x.registered ∧
        (ref' = ref ∧ w'.conn.role = x.conn.role.bind (some b) ∨ ref' ≠ ref ∧ w'.conn.role = x.conn.role) := by
    intro ref' w' hw'
    rw [hget] at hw'
    split at hw'
    · rename_i href
      obtain ⟨x, hx, rfl⟩ := Option.map_eq_some_iff.1 hw'
      exact ⟨x, hx, rfl, rfl, .inl ⟨href, rfl⟩⟩
    · rename_i href
      exact ⟨w', hw', rfl, rfl, .inr ⟨href, rfl⟩⟩
  have hback : ∀ b' σ', Standing (s.modify ref (·.withRole (Role.bind (some b)))) b' σ' → Standing s b' σ' := by
    rintro b' σ' ⟨v, hv, hr, hret⟩
    obtain ⟨x, hx, hret', -, hrole'⟩ := hrole σ' v hv
    refine ⟨x, hx, ?_, hret' ▸ hret⟩
    rcases hrole' with ⟨-, heq⟩ | ⟨-, heq⟩
    · exact Role.eq_burrow_of_bind (heq ▸ hr)
    · exact heq ▸ hr
  have hforth : ∀ b' σ', Standing s b' σ' → Standing (s.modify ref (·.withRole (Role.bind (some b)))) b' σ' := by
    rintro b' σ' ⟨v, hv, hr, hret⟩
    by_cases href : σ' = ref
    · refine ⟨v.withRole (Role.bind (some b)), by rw [hget, if_pos href, hv]; rfl, ?_, hret⟩
      simp [Socket.withRole, hr, Role.bind]
    · exact ⟨v, by rw [hget, if_neg href, hv], hr, hret⟩
  have hlast : ∀ clientId, lastInit clientId (log ++ (outs ++ [.toBurrow σ (toBurrowEnvelope (D.newClientId ref) frame)])) =
      if D.newClientId ref = clientId then some (b, σ) else lastInit clientId log := by
    intro clientId
    rw [← List.append_assoc, lastInit_append, lastInit_of_noInit ho]
    by_cases hid : D.newClientId ref = clientId
    · simp [lastInit, initOf, toBurrowEnvelope, hinit, hb, hid]
    · simp [lastInit, initOf, toBurrowEnvelope, hinit, hid]
  refine ⟨fun ref' w' id session expiresAt b' hw' hr' => ?_, fun ref' w' hw' => ?_, fun b' σ' σ'' h' h'' => ?_,
    fun ref' w' b' hw' hreg' hb' => ?_⟩
  · obtain ⟨x, hx, -, -, hrole'⟩ := hrole ref' w' hw'
    cases hr : x.conn.role with
    | burrow _ =>
      rcases hrole' with ⟨-, heq⟩ | ⟨-, heq⟩
      · rw [hr', hr] at heq
        cases heq
      · rw [hr', hr] at heq
        cases heq
    | client id' session' expiresAt' b'' =>
      have hid : id = id' := by
        rcases hrole' with ⟨-, heq⟩ | ⟨-, heq⟩
        · rw [hr', hr] at heq
          exact (Role.client.inj heq).1
        · rw [hr', hr] at heq
          exact (Role.client.inj heq).1
      rw [hid]
      exact h.named ref' x id' session' expiresAt' b'' hx hr
  · obtain ⟨x, hx, -⟩ := hrole ref' w' hw'
    rw [nextRef_modify]
    exact h.below ref' x hx
  · exact h.alone b' σ' σ'' (hback b' σ' h') (hback b' σ'' h'')
  · obtain ⟨x, hx, -, hreg, hrole'⟩ := hrole ref' w' hw'
    rcases hrole' with ⟨rfl, heq⟩ | ⟨hne, heq⟩
    · have hbb : b' = b := by
        rw [heq] at hb'
        cases hr : x.conn.role with
        | burrow _ => rw [hr] at hb'; cases hb'
        | client _ _ _ _ => rw [hr] at hb'; exact (Option.some.inj hb').symm
      rw [hbb]
      exact ⟨σ, hforth b σ hσ, by rw [hlast, if_pos rfl]⟩
    · rw [heq] at hb'
      obtain ⟨σ', hσ', hl⟩ := h.bound ref' x b' hx (hreg ▸ hreg') hb'
      exact ⟨σ', hforth b' σ' hσ', by rw [hlast, if_neg (fun hid => hne (D.fresh hid).symm)]; exact hl⟩

theorem noInit_tellGone (s : RelayRoom) (clientId : JsString) (b : Option JsString) : NoInit (s.tellGone clientId b) := by
  unfold tellGone
  split
  · exact noInit_nil
  · exact noInit_one (fun _ => rfl)

theorem Guarded.onClientFrame (parse : JsString → Option Json) {s : RelayRoom} {log : List Out} (h : Guarded D s log)
    {ref : Ref} {w : Socket} (hw : s.sockets.get ref = some w) (bound : Option JsString) (raw : JsString) (now : Int) :
    Guarded D (onClientFrame parse s ref (D.newClientId ref) bound raw now).1
      (log ++ (onClientFrame parse s ref (D.newClientId ref) bound raw now).2) := by
  unfold RelayRoom.onClientFrame
  split
  · rename_i frame hread
    obtain ⟨text, rfl⟩ := readClientFrame_error parse hread
    exact h.says (noInit_one (fun _ => rfl))
  · rename_i frame hread
    split
    · exact h.says (noInit_one (fun _ => rfl))
    · rename_i burrow hburrow
      split
      · exact h.wanes (wanes_retire s burrow.1 wsCloseIdle wsCloseIdleReason)
          ((noInit_retire s burrow.1 wsCloseIdle wsCloseIdleReason).append (noInit_one (fun _ => rfl)))
      · split
        · rename_i hinit
          refine h.bind hw (standing_of_burrow hburrow) ?_ rfl hinit
          split
          · exact noInit_nil
          · exact noInit_tellGone s _ _
        · rename_i hinit
          split
          · exact h.says noInit_nil
          · refine h.says (noInit_one (fun clientId => ?_))
            cases hstep : frame.step with
            | init => exact absurd hstep hinit
            | transport => simp [initOf, toBurrowEnvelope, hstep]

theorem noInit_onBurrowFrame (parse : JsString → Option Json) (s : RelayRoom) (b raw : JsString) :
    NoInit (onBurrowFrame parse s b raw) := by
  unfold onBurrowFrame
  split
  · exact noInit_nil
  · split
    · exact noInit_nil
    · split
      · exact noInit_nil
      · exact noInit_one (fun _ => rfl)

theorem Guarded.webSocketMessage (parse : JsString → Option Json) {s : RelayRoom} {log : List Out} (h : Guarded D s log)
    (ref : Ref) (message : Message) (now : Int) : Guarded D (webSocketMessage parse s ref message now).1
      (log ++ (webSocketMessage parse s ref message now).2) := by
  unfold RelayRoom.webSocketMessage
  split
  · exact h.says noInit_nil
  · rename_i w hw
    split
    · exact h.says noInit_nil
    · split
      · exact h.wanes (wanes_retire s ref _ _) (noInit_retire s ref _ _)
      · split
        · exact h.says noInit_nil
        · rename_i raw clientId session expiresAt b hrole _
          rw [h.named ref w clientId session expiresAt b hw hrole]
          exact h.onClientFrame parse hw b raw now
        · exact h.says (noInit_onBurrowFrame parse s _ _)

theorem Fades.guarded {log : List Out} (h : Guarded D s log) {r : RelayRoom × List Out} (hf : Fades r s) :
    Guarded D r.1 (log ++ r.2) := h.wanes hf.1 hf.2

/-- **One event keeps the guard**, if an open finds no socket of its Burrow left behind. -/
theorem Guarded.step (parse : JsString → Option Json) {s : RelayRoom} {log : List Out} (h : Guarded D s log) {i : Input}
    (hclean : OpensClean s i) : Guarded D (step D parse s i).1 (log ++ (step D parse s i).2) := by
  cases i with
  | openBurrow account b row checkedAt now => exact h.openBurrow account b row checkedAt now hclean
  | openClient account session expiresAt row checkedAt now => exact h.openClient account session expiresAt row checkedAt now
  | left socket => exact h.wanes (wanes_leave s socket) noInit_nil
  | message socket message now => exact h.webSocketMessage parse socket message now
  | ping socket now =>
    exact h.wanes (wanes_modify s socket (f := ({ · with answeredAt := some now })) (fun _ => rfl) (fun _ => rfl)
      (fun _ hr => hr)) (noInit_one (fun _ => rfl))
  | closed socket code => exact (fades_webSocketClose s socket code).guarded h
  | closeBurrow b =>
    unfold RelayRoom.step closeBurrow
    dsimp only
    split
    · exact h.says noInit_nil
    · exact (fades_retire s _ _ _).guarded h
  | closeSessions tokenHashes => exact (fades_run (fades_retireIf _ _ _) _ s).guarded h
  | nudgeBurrows =>
    refine h.says (fun o ho clientId => ?_)
    obtain ⟨e, -, rfl⟩ := List.mem_map.1 ho
    rfl
  | onlineBurrows now => exact (fades_run (fades_retireSilent now) _ s).guarded h
  | expire now => exact (fades_run (fades_retireIf _ _ _) _ s).guarded h
  | sweepClients account asked rows start =>
    unfold RelayRoom.step sweepClients
    dsimp only
    split
    · exact (fades_run (fades_retireIf _ _ _) _ s).guarded h
    · exact (fades_run (fades_sweepClient _ _ _) _ s).guarded h
  | sweepBurrows account asked rows start =>
    unfold RelayRoom.step sweepBurrows
    dsimp only
    split
    · exact (fades_run (fades_retireIf _ _ _) _ s).guarded h
    · exact (fades_run (fades_sweepBurrow _ _ _) _ s).guarded h

/-! ## Every run -/

theorem after_concat (parse : JsString → Option Json) (inputs : List Input) (i : Input) :
    after D parse (inputs ++ [i]) = (step D parse (after D parse inputs) i).1 ∧
      log D parse (inputs ++ [i]) = log D parse inputs ++ (step D parse (after D parse inputs) i).2 := by
  unfold after log
  rw [Mealy.run_append, Mealy.run_one]
  exact ⟨rfl, rfl⟩

/-- **No open of the run leaves a socket of its Burrow behind.** -/
def Clean (D : ClientIds) (parse : JsString → Option Json) (inputs : List Input) : Prop :=
  ∀ earlier i later, inputs = earlier ++ i :: later → OpensClean (after D parse earlier) i

variable {inputs : List Input}

theorem clean_concat {parse : JsString → Option Json} {i : Input} :
    Clean D parse (inputs ++ [i]) ↔ Clean D parse inputs ∧ OpensClean (after D parse inputs) i :=
  Mealy.everywhere_concat

theorem guarded_after (parse : JsString → Option Json) (inputs : List Input) (h : Clean D parse inputs) :
    Guarded D (after D parse inputs) (log D parse inputs) := by
  induction inputs using List.reverseRecOn with
  | nil =>
    refine ⟨fun _ _ _ _ _ _ hw => (nomatch hw), fun _ _ hw => (nomatch hw), fun _ _ _ hσ => ?_, fun _ _ _ hw => (nomatch hw)⟩
    obtain ⟨v, hv, -⟩ := hσ
    cases hv
  | append_singleton inputs i ih =>
    obtain ⟨hafter, hlog⟩ := after_concat (D := D) parse inputs i
    obtain ⟨hinputs, hi⟩ := clean_concat.1 h
    rw [hafter, hlog]
    exact (ih hinputs).step parse hi

/-- **A late close spares the Clients of a later socket**: the close of a Burrow's socket neither tells nor unbinds a Client
whose last `init` was forwarded to a later socket of that Burrow. -/
def LateCloseSpares (D : ClientIds) (parse : JsString → Option Json) (inputs : List Input) : Input → Prop
  | .closed σ code => ∀ v b ref σ', (after D parse inputs).sockets.get σ = some v → v.conn.role = .burrow b →
      lastInit (D.newClientId ref) (log D parse inputs) = some (b, σ') → σ < σ' →
      .toClient ref .burrowGone ∉ (step D parse (after D parse inputs) (.closed σ code)).2 ∧
      ((after D parse (inputs ++ [.closed σ code])).sockets.get ref).map (·.conn.role) =
        ((after D parse inputs).sockets.get ref).map (·.conn.role)
  | _              => True

/-- **Nothing crosses a replacement without an `init`**: a frame that is no `init` is forwarded only to the socket its
Client's last `init` was forwarded to. -/
def ForwardsWithinInit (D : ClientIds) (parse : JsString → Option Json) (inputs : List Input) (i : Input) : Prop :=
  ∀ σ clientId b kind id ct, .toBurrow σ (.e2e clientId b kind id .transport ct) ∈ (step D parse (after D parse inputs) i).2 →
    lastInit clientId (log D parse inputs) = some (b, σ)

/-- A registered Client bound to a Burrow made its last `init` with the one socket of it that stands. -/
theorem Guarded.last_of_bound {log : List Out} (h : Guarded D s log) {w : Socket} {σ : Ref}
    (hw : s.sockets.get ref = some w) (hr : w.registered = true) (hb : w.conn.role.bound = some b) (hσ : Standing s b σ) :
    lastInit (D.newClientId ref) log = some (b, σ) := by
  obtain ⟨σ', hσ', hlast⟩ := h.bound ref w b hw hr hb
  rw [hlast, h.alone b σ' σ hσ' hσ]

theorem webSocketClose_burrow {σ : Ref} {v : Socket} (hv : s.sockets.get σ = some v) (hrole : v.conn.role = .burrow b)
    (code : Nat)
    (hspared : ∀ w, s.sockets.get ref = some w → w.registered = true → w.conn.role.bound = some b → v.conn.retired = false → False) :
    
    .toClient ref .burrowGone ∉ (s.webSocketClose σ code).2 ∧
      ((s.webSocketClose σ code).1.sockets.get ref).map (·.conn.role) = (s.sockets.get ref).map (·.conn.role) := by
  have hleft := get_modify s σ (f := ({ · with isOpen := false }))
  unfold webSocketClose
  rw [hv]
  dsimp only
  cases hret : v.conn.retired with
  | true =>
    rw [if_pos rfl]
    refine ⟨fun hin => (nomatch List.mem_singleton.1 hin), ?_⟩
    rw [hleft]
    split
    · rename_i href
      rw [href, hv]
      rfl
    · rfl
  | false =>
    rw [if_neg Bool.false_ne_true]
    unfold unregister
    rw [hleft, if_pos rfl, hv, Option.map_some]
    simp only [hrole]
    -- the socket itself is closing, so only the others are held
    have hother : ∀ w, ((s.modify σ ({ · with isOpen := false })).modify σ
        (fun w => { w with conn := { w.conn with retired := true } })).sockets.get ref = some w →
        w.registered = true → w.conn.role.bound = some b → False := by
      intro w hw hreg hb
      rw [get_modify, hleft] at hw
      by_cases href : ref = σ
      · simp only [href, hv, Option.map_some] at hw
        obtain rfl := Option.some.inj hw
        simp [Socket.registered] at hreg
      · rw [if_neg href, if_neg href] at hw
        exact hspared w hw hreg hb hret
    refine ⟨fun hin => ?_, ?_⟩
    · rcases List.mem_append.1 hin with hin | hin
      · obtain ⟨e, he, heq⟩ := List.mem_map.1 hin
        obtain ⟨rfl, -⟩ := Out.toClient.inj heq
        obtain ⟨hget, hreg, hb⟩ := mem_held.1 he
        exact hother e.2 hget hreg (of_decide_eq_true hb)
      · cases List.mem_singleton.1 hin
    · rw [get_dropped]
      have hroles : (((s.modify σ ({ · with isOpen := false })).modify σ
          (fun w => { w with conn := { w.conn with retired := true } })).sockets.get ref).map (·.conn.role) =
          (s.sockets.get ref).map (·.conn.role) := by
        rw [get_modify, hleft]
        by_cases href : ref = σ
        · simp [href, hv]
        · simp [href]
      rw [← hroles]
      cases hw : ((s.modify σ ({ · with isOpen := false })).modify σ
          (fun w => { w with conn := { w.conn with retired := true } })).sockets.get ref with
      | none => rfl
      | some w =>
        have hkeep : ¬ (w.registered && decide (w.conn.role.bound = some b)) = true := by
          intro hboth
          rw [Bool.and_eq_true, decide_eq_true_eq] at hboth
          exact hother w hw hboth.1 hboth.2
        simp only [Option.map_some, if_neg hkeep]

theorem Guarded.lateCloseSpares (parse : JsString → Option Json) (h : Guarded D (after D parse inputs) (log D parse inputs))
    (i : Input) : LateCloseSpares D parse inputs i := by
  cases i with
  | closed σ code =>
    intro v b ref σ' hv hrole hlast hlt
    obtain ⟨hafter, -⟩ := after_concat (D := D) parse inputs (.closed σ code)
    rw [hafter]
    refine webSocketClose_burrow hv hrole code (fun w hw hreg hb hret => ?_)
    have hsame := h.last_of_bound hw hreg hb ⟨v, hv, hrole, hret⟩
    rw [hlast] at hsame
    obtain ⟨-, rfl⟩ := Prod.mk.inj (Option.some.inj hsame)
    exact Nat.lt_irrefl _ hlt
  | _ => exact trivial

def NoForward (outs : List Out) : Prop := ∀ σ clientId b kind id step' ct, .toBurrow σ (.e2e clientId b kind id step' ct) ∉ outs

theorem noForward_nil : NoForward [] := fun _ _ _ _ _ _ _ => List.not_mem_nil

theorem noForward_one {o : Out} (h : ∀ σ clientId b kind id step' ct, o ≠ .toBurrow σ (.e2e clientId b kind id step' ct)) :
    NoForward [o] := fun σ clientId b kind id step' ct hin => h σ clientId b kind id step' ct (List.mem_singleton.1 hin).symm

theorem NoForward.append {outs outs' : List Out} (h : NoForward outs) (h' : NoForward outs') : NoForward (outs ++ outs') := by
  intro σ clientId b kind id step' ct hin
  rcases List.mem_append.1 hin with hin | hin
  · exact h σ clientId b kind id step' ct hin
  · exact h' σ clientId b kind id step' ct hin

theorem noForward_run {α : Type} {f : RelayRoom → α → RelayRoom × List Out} (h : ∀ s a, NoForward (f s a).2) :
    ∀ (l : List α) (s : RelayRoom), NoForward (Mealy.run f s l).2
  | [], _ => noForward_nil
  | a :: l, s => (h s a).append (noForward_run h l (f s a).1)

theorem noForward_tellGone (s : RelayRoom) (clientId : JsString) (b : Option JsString) : NoForward (s.tellGone clientId b) := by
  unfold tellGone
  split
  · exact noForward_nil
  · exact noForward_one (fun _ _ _ _ _ _ _ h => nomatch h)

theorem noForward_unregister (s : RelayRoom) (ref : Ref) : NoForward (s.unregister ref).2 := by
  unfold unregister
  split
  · exact noForward_nil
  · dsimp only
    split
    · intro σ clientId b kind id step' ct hin
      obtain ⟨e, -, heq⟩ := List.mem_map.1 hin
      cases heq
    · exact noForward_tellGone _ _ _

theorem noForward_retire (s : RelayRoom) (ref : Ref) (code : Nat) (reason : JsString) :
    NoForward (s.retire ref code reason).2 :=
  (noForward_unregister s ref).append (noForward_one (fun _ _ _ _ _ _ _ h => nomatch h))

theorem noForward_retireIf (p : Socket → Bool) (code : Nat) (reason : JsString) (s : RelayRoom) (e : Ref × Socket) :
    NoForward (retireIf p code reason s e).2 := by
  unfold retireIf
  split
  · exact noForward_retire s _ _ _
  · exact noForward_nil

theorem noForward_retireSilent (now : Int) (s : RelayRoom) (e : Ref × Socket) : NoForward (retireSilent now s e).2 := by
  unfold retireSilent
  split
  · exact noForward_retire s _ _ _
  · exact noForward_nil

theorem noForward_admitClient (s : RelayRoom) (session : JsString) (expiresAt checkedAt now : Int) :
    NoForward (admitClient D s session expiresAt checkedAt now).2 := by
  unfold admitClient
  split
  · exact noForward_one (fun _ _ _ _ _ _ _ h => nomatch h)
  · exact noForward_nil

theorem noForward_openClient (s : RelayRoom) (account session : JsString) (expiresAt : Int)
    (row : Option (Option (JsString × Bool))) (checkedAt now : Int) :
    NoForward (openClient D s account session expiresAt row checkedAt now).2 := by
  unfold openClient
  split
  · exact noForward_one (fun _ _ _ _ _ _ _ h => nomatch h)
  · split
    · exact noForward_nil
    · split
      · exact noForward_one (fun _ _ _ _ _ _ _ h => nomatch h)
      · split
        · exact (noForward_run (noForward_retireSilent now) _ s).append (noForward_admitClient _ _ _ _ _)
        · exact noForward_admitClient _ _ _ _ _

theorem noForward_onBurrowFrame (parse : JsString → Option Json) (s : RelayRoom) (b raw : JsString) :
    NoForward (onBurrowFrame parse s b raw) := by
  unfold onBurrowFrame
  split
  · exact noForward_nil
  · split
    · exact noForward_nil
    · split
      · exact noForward_nil
      · exact noForward_one (fun _ _ _ _ _ _ _ h => nomatch h)

def Input.isMessage : Input → Bool
  | .message _ _ _ => true
  | _              => false

theorem noForward_step (parse : JsString → Option Json) (s : RelayRoom) {i : Input} (hi : i.isMessage = false) :
    NoForward (step D parse s i).2 := by
  cases i with
  | openBurrow account b row checkedAt now =>
    unfold step openBurrow
    dsimp only
    split
    · exact noForward_nil
    · split
      · exact noForward_nil
      · exact noForward_retire s _ _ _
  | openClient account session expiresAt row checkedAt now =>
      exact noForward_openClient s account session expiresAt row checkedAt now
  | left socket => exact noForward_nil
  | message socket message now => cases hi
  | ping socket now => exact noForward_one (fun _ _ _ _ _ _ _ h => nomatch h)
  | closed socket code =>
    unfold step webSocketClose
    dsimp only
    split
    · exact noForward_nil
    · split
      · exact noForward_one (fun _ _ _ _ _ _ _ h => nomatch h)
      · exact (noForward_unregister _ _).append (noForward_one (fun _ _ _ _ _ _ _ h => nomatch h))
  | closeBurrow b =>
    unfold step closeBurrow
    dsimp only
    split
    · exact noForward_nil
    · exact noForward_retire s _ _ _
  | closeSessions tokenHashes => exact noForward_run (noForward_retireIf _ _ _) _ s
  | nudgeBurrows =>
    intro σ clientId b kind id step' ct hin
    obtain ⟨e, -, heq⟩ := List.mem_map.1 hin
    cases heq
  | onlineBurrows now => exact noForward_run (noForward_retireSilent now) _ s
  | expire now => exact noForward_run (noForward_retireIf _ _ _) _ s
  | sweepClients account asked rows start =>
    unfold step sweepClients
    dsimp only
    split
    · exact noForward_run (noForward_retireIf _ _ _) _ s
    · refine noForward_run (fun s e => ?_) _ s
      unfold sweepClient
      split
      · exact noForward_retire s _ _ _
      · split
        · exact noForward_nil
        · exact noForward_nil
  | sweepBurrows account asked rows start =>
    unfold step sweepBurrows
    dsimp only
    split
    · exact noForward_run (noForward_retireIf _ _ _) _ s
    · refine noForward_run (fun s b => ?_) _ s
      unfold sweepBurrow
      split
      · exact noForward_nil
      · split
        · exact noForward_one (fun _ _ _ _ _ _ _ h => nomatch h)
        · exact noForward_retire s _ _ _
        · exact noForward_retire s _ _ _

theorem Guarded.forwardsWithinInit (parse : JsString → Option Json)
    (h : Guarded D (after D parse inputs) (log D parse inputs)) (i : Input) : ForwardsWithinInit D parse inputs i := by
  intro σ clientId b kind id ct hin
  cases i with
  | message ref message now =>
    have hin : Out.toBurrow σ (.e2e clientId b kind id .transport ct) ∈
      (RelayRoom.webSocketMessage parse (after D parse inputs) ref message now).2 := hin
    unfold RelayRoom.webSocketMessage at hin
    split at hin
    · exact absurd hin List.not_mem_nil
    · rename_i w hw
      split at hin
      · exact absurd hin List.not_mem_nil
      · rename_i hreg
        have hreg : w.registered = true := by simpa using hreg
        split at hin
        · exact absurd hin (noForward_retire _ _ _ _ _ _ _ _ _ _ _)
        · split at hin
          · exact absurd hin List.not_mem_nil
          · rename_i raw clientId' session expiresAt bound hrole _ _
            have hid := h.named ref w clientId' session expiresAt bound hw hrole
            unfold RelayRoom.onClientFrame at hin
            split at hin
            · cases List.mem_singleton.1 hin
            · rename_i frame hread
              split at hin
              · cases List.mem_singleton.1 hin
              · rename_i burrow hburrow
                split at hin
                · rcases List.mem_append.1 hin with hin | hin
                  · exact absurd hin (noForward_retire _ _ _ _ _ _ _ _ _ _ _)
                  · cases List.mem_singleton.1 hin
                · split at hin
                  · rename_i hinit
                    rcases List.mem_append.1 hin with hin | hin
                    · split at hin
                      · exact absurd hin List.not_mem_nil
                      · exact absurd hin (noForward_tellGone _ _ _ _ _ _ _ _ _ _)
                    · obtain ⟨-, henv⟩ := Out.toBurrow.inj (List.mem_singleton.1 hin)
                      unfold toBurrowEnvelope at henv
                      rw [hinit] at henv
                      cases henv
                  · split at hin
                    · exact absurd hin List.not_mem_nil
                    · rename_i hbound
                      obtain ⟨rfl, henv⟩ := Out.toBurrow.inj (List.mem_singleton.1 hin)
                      obtain ⟨rfl, rfl, -⟩ := RelayToBurrowFrame.e2e.inj henv
                      rw [hid]
                      refine h.last_of_bound hw hreg ?_ (standing_of_burrow hburrow)
                      rw [hrole]
                      exact Decidable.not_not.1 hbound
          · exact absurd hin (noForward_onBurrowFrame parse _ _ _ _ _ _ _ _ _ _)
  | _ => exact absurd hin (noForward_step parse _ rfl _ _ _ _ _ _ _)

/-- **The guard holds in every run whose opens find no socket left behind**: whatever the next event is. -/
theorem generation_guard_of_clean (D : ClientIds) (parse : JsString → Option Json) (inputs : List Input)
    (h : Clean D parse inputs) (i : Input) : LateCloseSpares D parse inputs i ∧ ForwardsWithinInit D parse inputs i := by
  have hguarded := guarded_after parse inputs h
  exact ⟨hguarded.lateCloseSpares parse i, hguarded.forwardsWithinInit parse i⟩

/-! ## The socket left behind -/

def sampleIds : ClientIds where
  newClientId ref := List.replicate ref 65
  fresh a b h := by simpa using congrArg List.length h

def sampleBurrowId : JsString := units "AAAAAAAAAAAAAAAAAAAAAA"

def sampleText (step : String) : JsString :=
  units "\x7b\"t\":\"e2e\",\"burrowId\":\"AAAAAAAAAAAAAAAAAAAAAA\",\"kind\":\"connection\",\"id\":\"BBBBBBBBBBBBBBBBBBBBBB\",\"step\":\"" ++
    units step ++ units "\",\"ct\":\"AA\"\x7d"

def sampleFrame (step : String) : Json :=
  .obj [(units "t", .str (units "e2e")), (units "burrowId", .str sampleBurrowId), (units "kind", .str (units "connection")),
    (units "id", .str (units "BBBBBBBBBBBBBBBBBBBBBB")), (units "step", .str (units step)), (units "ct", .str (units "AA"))]

/-- `JSON.parse`, of the two texts sent here. -/
def sampleParse (raw : JsString) : Option Json :=
  if raw = sampleText "init" then some (sampleFrame "init")
  else if raw = sampleText "transport" then some (sampleFrame "transport")
  else none

def sampleOpen : Input := .openBurrow (units "u") sampleBurrowId (some (some (units "u", true))) 0 0
def sampleClient : Input := .openClient (units "u") (units "h") 1000 (some (some (units "u", true))) 0 0

/-- The Burrow's second socket is opened before the close event of its first, and a Client binds to it. -/
def lateRun : List Input := [sampleOpen, .left 0, sampleOpen, sampleClient, .message 2 (.text (sampleText "init")) 0]

/-- A Client binds to the first socket, and the second is opened before the close event of the first. -/
def crossedRun : List Input := [sampleOpen, sampleClient, .message 1 (.text (sampleText "init")) 0, .left 0, sampleOpen]

/-- **Both halves of the guard fail** once an open falls between a socket's leaving `OPEN` and its close event. -/
theorem generation_guard_missed :
    ¬ LateCloseSpares sampleIds sampleParse lateRun (.closed 0 1006) ∧
    ¬ ForwardsWithinInit sampleIds sampleParse crossedRun (.message 1 (.text (sampleText "transport")) 0) := by
  refine ⟨fun h => ?_, fun h => ?_⟩
  · have hrole : ((after sampleIds sampleParse lateRun).sockets.get 0).map (·.conn.role) = some (.burrow sampleBurrowId) := by
      decide +kernel
    obtain ⟨v, hv, hr⟩ := Option.map_eq_some_iff.1 hrole
    refine (h v sampleBurrowId 2 1 hv hr (by decide +kernel) (by decide)).1 ?_
    decide +kernel
  · have hin : Out.toBurrow 2 (.e2e (sampleIds.newClientId 1) sampleBurrowId .connection (units "BBBBBBBBBBBBBBBBBBBBBB")
        .transport (units "AA")) ∈ (step sampleIds sampleParse (after sampleIds sampleParse crossedRun)
          (.message 1 (.text (sampleText "transport")) 0)).2 := by
      decide +kernel
    have hlast := h _ _ _ _ _ _ hin
    revert hlast
    decide +kernel

/-- A run in which the first socket's close event comes before the second is opened. -/
def cleanRun : List Input :=
  [sampleOpen, sampleClient, .message 1 (.text (sampleText "init")) 0, .closed 0 1006, sampleOpen]

theorem opensClean_of_entries {account b : JsString} {row : Option (Option (JsString × Bool))} {checkedAt now : Int}
    (h : ∀ e ∈ s.sockets.entries, e.2.conn.role = .burrow b → e.2.conn.retired = false → e.2.isOpen = true) :
    OpensClean s (.openBurrow account b row checkedAt now) := fun _ σ v hv => h (σ, v) (OrdMap.mem_entries.2 hv)

theorem clean_cleanRun : Clean sampleIds sampleParse cleanRun := by
  have hnil : Clean sampleIds sampleParse [] := fun earlier i later h => by
    have hlen := congrArg List.length h
    simp at hlen
  have hfirst : OpensClean (after sampleIds sampleParse []) sampleOpen := opensClean_of_entries (by decide +kernel)
  have hopen := clean_concat.2 ⟨hnil, hfirst⟩
  have hclient : Clean sampleIds sampleParse ([] ++ [sampleOpen] ++ [sampleClient]) := clean_concat.2 ⟨hopen, trivial⟩
  have hinit : Clean sampleIds sampleParse ([] ++ [sampleOpen] ++ [sampleClient] ++
      [.message 1 (.text (sampleText "init")) 0]) := clean_concat.2 ⟨hclient, trivial⟩
  have hclosed : Clean sampleIds sampleParse ([] ++ [sampleOpen] ++ [sampleClient] ++
      [.message 1 (.text (sampleText "init")) 0] ++ [.closed 0 1006]) := clean_concat.2 ⟨hinit, trivial⟩
  have hlast : OpensClean (after sampleIds sampleParse ([] ++ [sampleOpen] ++ [sampleClient] ++
      [.message 1 (.text (sampleText "init")) 0] ++ [.closed 0 1006])) sampleOpen := opensClean_of_entries (by decide +kernel)
  exact clean_concat.2 ⟨hclosed, hlast⟩

theorem generation_guard_of_cleanRun :
    Clean sampleIds sampleParse cleanRun ∧ LateCloseSpares sampleIds sampleParse cleanRun (.closed 0 1006) ∧
      ForwardsWithinInit sampleIds sampleParse cleanRun (.message 1 (.text (sampleText "transport")) 0) :=
  ⟨clean_cleanRun, (generation_guard_of_clean sampleIds sampleParse cleanRun clean_cleanRun (.closed 0 1006)).1,
    (generation_guard_of_clean sampleIds sampleParse cleanRun clean_cleanRun (.message 1 (.text (sampleText "transport")) 0)).2⟩

end RelayRoom
end Relay
end Dormouse
