import Dormouse.OrdMap
import Dormouse.Steps
import Dormouse.Js
/-!
# HelperOwners — which terminals are the helpers of which

The part of `pty-core.js` that says who owns a helper terminal: `spawn` with or without an owner, `promote` and its
`restore`, `kill`, `killAll`, and the exit of a process.  An id that gets an owner is a helper from then on, and nothing
asks whether it owns one: the map stays a relation of sources and their helpers exactly as long as no such id is given one.
-/
namespace Dormouse
namespace PtyCore

abbrev SessionId := JsString

inductive Sent where
  | error (id : SessionId)
  | exit (id : SessionId)
  | helper (id : SessionId) (isHelper : Bool)
  | context (error : Option JsString)
  deriving DecidableEq

/-- Each process is known by its number. -/
structure Sidecar where
  ptys     : OrdMap SessionId Nat
  helpers  : OrdMap SessionId SessionId
  /-- Every spawned terminal that was not killed, the exited ones too. -/
  sessions : OrdMap SessionId Nat
  spawned  : Nat

def create : Sidecar := ⟨.empty, .empty, .empty, 0⟩

/-- `parentId` is `none` where the message holds no string. -/
structure HelperIdentity where
  parentId : Option SessionId
  deriving DecidableEq

def validHelperOwner (s : Sidecar) (id : SessionId) (helper : HelperIdentity) : Bool :=
  match helper.parentId with
  | none          => false
  | some parentId =>
    parentId ≠ id && (s.sessions.get parentId).isSome && (s.helpers.get parentId).isNone &&
      ! s.helpers.entries.any (fun other => other.1 ≠ id && other.2 = parentId)

/-- The entry of an owner that was found valid, which names a string. -/
def own (s : Sidecar) (id : SessionId) (helper : HelperIdentity) : Sidecar :=
  { s with helpers := (helper.parentId.map (s.helpers.set id)).getD s.helpers }

def failSpawn (s : Sidecar) (id : SessionId) : Sidecar × List Sent := (s, [.error id, .exit id])

/-- The process starts, or the system starts none; one that had the id is stopped and no longer speaks for it. -/
def launch (s : Sidecar) (id : SessionId) (starts : Bool) : Sidecar × List Sent :=
  let told := Sent.helper id (s.helpers.get id).isSome
  if starts then
    ({ s with ptys := s.ptys.set id s.spawned, sessions := s.sessions.set id s.spawned, spawned := s.spawned + 1 }, [told])
  else ((failSpawn s id).1, told :: (failSpawn s id).2)

/-- `resolves` says whether the options make a configuration, `starts` whether the system starts its process. -/
def spawn (s : Sidecar) (id : SessionId) (helper : Option HelperIdentity) (resolves starts : Bool) : Sidecar × List Sent :=
  if resolves then
    match helper with
    | none        => launch { s with helpers := s.helpers.delete id } id starts
    | some helper => if validHelperOwner s id helper then launch (own s id helper) id starts else (s, [.exit id])
  else failSpawn s id

def exited (s : Sidecar) (id : SessionId) (process : Nat) : Sidecar × List Sent :=
  match s.ptys.get id with
  | none         => (s, [.exit id])
  | some current => if current = process then ({ s with ptys := s.ptys.delete id }, [.exit id]) else (s, [])

/-- `stops` says whether the process can be stopped: an attempt that throws ends the operation there. -/
def kill (s : Sidecar) (id : SessionId) (stops : Bool) : Sidecar :=
  { s with
    ptys     := if stops then s.ptys.delete id else s.ptys
    helpers  := s.helpers.delete id
    sessions := s.sessions.delete id }

def killAll (s : Sidecar) (stops : Bool) : Sidecar :=
  if stops || s.ptys.entries.isEmpty then { s with ptys := .empty, helpers := .empty, sessions := .empty } else s

def promote (s : Sidecar) (id : SessionId) (restore : Option HelperIdentity) : Sidecar × List Sent :=
  match restore with
  | none        => ({ s with helpers := s.helpers.delete id }, [.helper id false, .context none])
  | some helper =>
    if (s.sessions.get id).isSome && validHelperOwner s id helper then
      (own s id helper, [.helper id ((own s id helper).helpers.get id).isSome, .context none])
    else (s, [.context (some (units "Invalid helper owner"))])

inductive Op where
  | spawn (id : SessionId) (helper : Option HelperIdentity) (resolves starts : Bool)
  | exited (id : SessionId) (process : Nat)
  | promote (id : SessionId) (restore : Option HelperIdentity)
  | kill (id : SessionId) (stops : Bool)
  | killAll (stops : Bool)

def act (s : Sidecar) : Op → Sidecar × List Sent
  | .spawn id helper resolves starts => spawn s id helper resolves starts
  | .exited id process               => exited s id process
  | .promote id restore              => promote s id restore
  | .kill id stops                   => (kill s id stops, [])
  | .killAll stops                   => (killAll s stops, [])

def step (s : Sidecar) (op : Op) : Sidecar := (act s op).1

/-! ## The helper map -/

/-- **Sources and their helpers**: a source has one helper, no helper is its own source, and none has one. -/
structure Paired (helpers : OrdMap SessionId SessionId) : Prop where
  single  : ∀ {a b p}, helpers.get a = some p → helpers.get b = some p → a = b
  strict  : ∀ {a p}, helpers.get a = some p → a ≠ p
  shallow : ∀ {a p}, helpers.get a = some p → helpers.get p = none

def Admits (s : Sidecar) (id : SessionId) : Op → Prop
  | .spawn id' (some helper) resolves _ => id' = id ∧ resolves = true ∧ validHelperOwner s id helper = true
  | .promote id' (some helper)          => id' = id ∧ (s.sessions.get id).isSome ∧ validHelperOwner s id helper = true
  | _                                   => False

def Childless (s : Sidecar) (op : Op) : Prop := ∀ id, Admits s id op → ∀ a, s.helpers.get a ≠ some id

def Refused (s : Sidecar) : Op → Prop
  | .spawn id helper resolves _ => resolves = false ∨ ∃ h, helper = some h ∧ validHelperOwner s id h = false
  | .promote id (some helper)   => s.sessions.get id = none ∨ validHelperOwner s id helper = false
  | _                           => False

variable {helper : HelperIdentity}

theorem validHelperOwner_iff {s : Sidecar} {id : SessionId} :
    validHelperOwner s id helper = true ↔ ∃ p, helper.parentId = some p ∧ p ≠ id ∧ (s.sessions.get p).isSome ∧
      s.helpers.get p = none ∧ ∀ a, s.helpers.get a = some p → a = id := by
  unfold validHelperOwner
  cases hparent : helper.parentId with
  | none => simp
  | some p =>
    have hsole : s.helpers.entries.any (fun other => other.1 ≠ id && other.2 = p) = false ↔
        ∀ a, s.helpers.get a = some p → a = id := by
      rw [List.any_eq_false]
      constructor
      · intro h a ha
        by_contra hne
        exact h _ (OrdMap.mem_entries.2 ha) (by simp [hne])
      · rintro h ⟨a, q⟩ hmem hother
        simp only [ne_eq, decide_not, Bool.and_eq_true, Bool.not_eq_true', decide_eq_false_iff_not,
          decide_eq_true_eq] at hother
        exact hother.1 (h a (OrdMap.mem_entries.1 (hother.2 ▸ hmem)))
    simp only [Bool.and_eq_true, Bool.not_eq_true', hsole, decide_eq_true_eq, Option.isNone_iff_eq_none, ne_eq,
      and_assoc, Option.some.injEq, exists_eq_left']

theorem own_helpers {s : Sidecar} {id p : SessionId} (h : helper.parentId = some p) :
    (own s id helper).helpers = s.helpers.set id p := by
  simp [own, h]

@[simp] theorem launch_helpers (s : Sidecar) (id : SessionId) (starts : Bool) :
    (launch s id starts).1.helpers = s.helpers := by
  cases starts <;> rfl

@[simp] theorem exited_helpers (s : Sidecar) (id : SessionId) (process : Nat) :
    (exited s id process).1.helpers = s.helpers := by
  unfold exited
  cases s.ptys.get id with
  | none   => rfl
  | some c => by_cases h : c = process <;> simp [h]

namespace Paired

variable {helpers : OrdMap SessionId SessionId}

theorem empty : Paired .empty where
  single := fun h => by cases h
  strict := fun h => by cases h
  shallow := fun h => by cases h

theorem of_subset {kept : OrdMap SessionId SessionId} (h : Paired helpers)
    (hsub : ∀ a, kept.get a = none ∨ kept.get a = helpers.get a) : Paired kept := by
  have hget : ∀ {a p}, kept.get a = some p → helpers.get a = some p := by
    intro a p hp
    rcases hsub a with hnone | hsame
    · rw [hnone] at hp; cases hp
    · rwa [← hsame]
  refine ⟨fun ha hb => h.single (hget ha) (hget hb), fun ha => h.strict (hget ha), fun {a p} ha => ?_⟩
  rcases hsub p with hnone | hsame
  · exact hnone
  · rw [hsame, h.shallow (hget ha)]

theorem delete (h : Paired helpers) (id : SessionId) : Paired (helpers.delete id) := by
  refine h.of_subset (fun a => ?_)
  by_cases ha : a = id
  · subst ha; simp
  · exact .inr (OrdMap.get_delete_ne _ ha)

/-- **An owner the check lets through pairs with a new helper exactly when the helper has none of its own.** -/
theorem set_iff (h : Paired helpers) {id p : SessionId} (hself : p ≠ id) (hparent : helpers.get p = none)
    (hsole : ∀ a, helpers.get a = some p → a = id) :
    Paired (helpers.set id p) ↔ ∀ a, helpers.get a ≠ some id := by
  constructor
  · intro hset a ha
    have hne : a ≠ id := h.strict ha
    have hkept : (helpers.set id p).get a = some id := by rw [OrdMap.get_set_ne _ _ hne, ha]
    have hnone := hset.shallow hkept
    rw [OrdMap.get_set_self] at hnone
    cases hnone
  · intro hfree
    have hcases : ∀ {a q}, (helpers.set id p).get a = some q → a = id ∧ q = p ∨ a ≠ id ∧ helpers.get a = some q := by
      intro a q hq
      by_cases ha : a = id
      · subst ha
        rw [OrdMap.get_set_self] at hq
        exact .inl ⟨rfl, (Option.some.inj hq).symm⟩
      · exact .inr ⟨ha, by rwa [OrdMap.get_set_ne _ _ ha] at hq⟩
    constructor
    · intro a b q ha hb
      rcases hcases ha with ⟨rfl, rfl⟩ | ⟨-, hold⟩ <;> rcases hcases hb with ⟨hb', hq⟩ | ⟨-, hold'⟩
      · exact hb'.symm
      · exact (hsole b hold').symm
      · exact (hsole a (hq ▸ hold)).trans hb'.symm
      · exact h.single hold hold'
    · intro a q ha
      rcases hcases ha with ⟨rfl, rfl⟩ | ⟨-, ha⟩
      · exact hself.symm
      · exact h.strict ha
    · intro a q ha
      rcases hcases ha with ⟨rfl, rfl⟩ | ⟨-, ha⟩
      · rw [OrdMap.get_set_ne _ _ hself, hparent]
      · have hne : q ≠ id := fun hq => hfree a (hq ▸ ha)
        rw [OrdMap.get_set_ne _ _ hne, h.shallow ha]

end Paired

theorem own_paired_iff {s : Sidecar} {id : SessionId} (h : Paired s.helpers)
    (hvalid : validHelperOwner s id helper = true) :
    Paired (own s id helper).helpers ↔ ∀ a, s.helpers.get a ≠ some id := by
  obtain ⟨p, hp, hself, -, hparent, hsole⟩ := validHelperOwner_iff.1 hvalid
  rw [own_helpers hp]
  exact h.set_iff hself hparent hsole

/-- **A step keeps the pairing exactly when whoever becomes a helper has none of its own.** -/
theorem step_paired_iff (s : Sidecar) (op : Op) (h : Paired s.helpers) : Paired (step s op).helpers ↔ Childless s op := by
  have hnone : ∀ {op}, (∀ id, ¬ Admits s id op) → Childless s op := fun hno id ha => absurd ha (hno id)
  cases op with
  | spawn id helper resolves starts =>
    cases resolves with
    | false => exact iff_of_true h (hnone (by cases helper <;> simp [Admits]))
    | true =>
      cases helper with
      | none =>
        simp only [step, act, spawn, if_true, launch_helpers]
        exact iff_of_true (h.delete id) (hnone (fun _ hno => hno))
      | some helper =>
        cases hvalid : validHelperOwner s id helper with
        | false =>
          simp only [step, act, spawn, if_true, hvalid]
          refine iff_of_true h (hnone ?_)
          rintro id' ⟨rfl, -, hv⟩
          simp [hvalid] at hv
        | true =>
          simp only [step, act, spawn, if_true, hvalid, launch_helpers]
          rw [own_paired_iff h hvalid]
          constructor
          · rintro hfree _ ⟨rfl, -, -⟩
            exact hfree
          · exact fun hfree => hfree id ⟨rfl, rfl, hvalid⟩
  | exited id process =>
    simp only [step, act, exited_helpers]
    exact iff_of_true h (hnone (fun _ hno => hno))
  | promote id restore =>
    cases restore with
    | none => exact iff_of_true (h.delete id) (hnone (fun _ hno => hno))
    | some helper =>
      by_cases hok : ((s.sessions.get id).isSome && validHelperOwner s id helper) = true
      · have hvalid := (Bool.and_eq_true_iff.1 hok).2
        simp only [step, act, promote, hok, if_true]
        rw [own_paired_iff h hvalid]
        constructor
        · rintro hfree _ ⟨rfl, -, -⟩
          exact hfree
        · exact fun hfree => hfree id ⟨rfl, (Bool.and_eq_true_iff.1 hok).1, hvalid⟩
      · simp only [step, act, promote, hok]
        refine iff_of_true h (hnone ?_)
        rintro id' ⟨rfl, hsession, hvalid⟩
        exact hok (by simp [hsession, hvalid])
  | kill id stops => exact iff_of_true (h.delete id) (hnone (fun _ hno => hno))
  | killAll stops =>
    refine iff_of_true ?_ (hnone (fun _ hno => hno))
    simp only [step, act, killAll]
    split
    · exact .empty
    · exact h

/-- **What is refused leaves the helpers as they were.** -/
theorem step_refused (s : Sidecar) (op : Op) (h : Refused s op) : (step s op).helpers = s.helpers := by
  cases op with
  | spawn id helper resolves starts =>
    rcases h with rfl | ⟨helper, rfl, hvalid⟩
    · rfl
    · cases resolves <;> simp [step, act, spawn, failSpawn, hvalid]
  | promote id restore =>
    cases restore with
    | none => exact h.elim
    | some helper =>
      have hnot : ((s.sessions.get id).isSome && validHelperOwner s id helper) = false := by
        rcases h with hsession | hvalid
        · simp [hsession]
        · simp [hvalid]
      simp [step, act, promote, hnot]
  | exited id process => exact h.elim
  | kill id stops => exact h.elim
  | killAll stops => exact h.elim

/-- **Sources and helpers stay paired in every run, and what is refused changes nothing, exactly when no step makes a
helper of an id that has one.** -/
theorem helpers_paired_iff (ops : List Op) :
    ((∀ k, Paired (Steps.run step create (ops.take k)).helpers) ∧
      ∀ k op, Refused (Steps.run step create (ops.take k)) op →
        (step (Steps.run step create (ops.take k)) op).helpers = (Steps.run step create (ops.take k)).helpers) ↔
    Steps.Along step Childless create ops := by
  rw [and_iff_left (fun k op => step_refused _ op)]
  exact Steps.states_iff_along (fun s op => step_paired_iff s op) ops create Paired.empty

def respawned : List Op :=
  [.spawn (units "a") none true true, .spawn (units "b") (some ⟨some (units "a")⟩) true true,
    .spawn (units "c") none true true, .spawn (units "a") (some ⟨some (units "c")⟩) true true]

theorem helper_of_helper :
    ¬ ∀ ops : List Op, (∀ k, Paired (Steps.run step create (ops.take k)).helpers) ∧
      ∀ k op, Refused (Steps.run step create (ops.take k)) op →
        (step (Steps.run step create (ops.take k)) op).helpers = (Steps.run step create (ops.take k)).helpers := by
  intro h
  have hpaired := (h respawned).1 4
  have hown : (Steps.run step create (respawned.take 4)).helpers.get (units "a") = some (units "c") := by decide +kernel
  have hhelper : (Steps.run step create (respawned.take 4)).helpers.get (units "b") = some (units "a") := by decide +kernel
  rw [hpaired.shallow hhelper] at hown
  cases hown

end PtyCore
end Dormouse
