import Dormouse.IdCounters
import Mathlib.Data.List.Nodup
import Mathlib.Data.List.Range
/-!
# IdCountersRun — no number is handed out twice, over all launches

What the file holds lies above every number handed out, and a host that may write it has counters no lower than the file.
A host that may not hands out labels only, so what it has not read it does not need to know.
-/
namespace Dormouse
namespace Ids

/-! ## Counters grow -/

def Counters.Under (c c' : Counters) : Prop := ∀ k, c.next k ≤ c'.next k

theorem Counters.Under.refl (c : Counters) : c.Under c := fun _ => le_rfl

theorem Counters.Under.trans {c c' c'' : Counters} (h : c.Under c') (h' : c'.Under c'') : c.Under c'' :=
  fun k => (h k).trans (h' k)

theorem setNext_under (c : Counters) {kind : Kind} {n : U64} (h : c.next kind ≤ n) : c.Under (c.setNext kind n) := by
  intro k
  by_cases hk : k = kind
  · subst hk
    rwa [Counters.next_setNext_self]
  · rw [Counters.next_setNext_ne c n hk]

theorem seed_under (c : Counters) (kind : Kind) (n : U64) : c.Under (c.seed kind n) := setNext_under c (le_max_left _ _)

theorem le_seed (c : Counters) (kind : Kind) (n : U64) : n ≤ (c.seed kind n).next kind := by
  rw [Counters.seed, Counters.next_setNext_self]
  exact le_max_right _ _

theorem load_under {c c' : Counters} {contents : Contents} (h : c.load contents = .ok c') :
    c.Under c' ∧ ∃ file, contents.read = .ok file ∧ file.Under c' := by
  unfold Counters.load at h
  cases hread : contents.read with
  | error e => rw [hread] at h; cases h
  | ok file =>
    rw [hread] at h
    cases h
    have hs := seed_under c .surface file.surface
    have hw := seed_under (c.seed .surface file.surface) .workspace file.workspace
    have hl := seed_under ((c.seed .surface file.surface).seed .workspace file.workspace) .window file.window
    refine ⟨hs.trans (hw.trans hl), file, rfl, ?_⟩
    intro k
    cases k with
    | surface => exact (le_seed c .surface file.surface).trans (hw.trans hl .surface)
    | workspace => exact (le_seed _ .workspace file.workspace).trans (hl .workspace)
    | window => exact le_seed _ .window file.window

theorem read_file (c : Counters) : c.file.read = .ok c := by
  obtain ⟨surface, workspace, window⟩ := c
  rfl

/-! ## What a reservation hands out -/

@[simp] theorem numbers_empty : Block.empty.numbers = [] := rfl

theorem mem_numbers {b : Block} {n : Nat} : n ∈ b.numbers ↔ b.first.val ≤ n ∧ n < b.stop.val := by
  unfold Block.numbers
  rw [List.mem_range'_1]
  omega

theorem numbers_nodup (b : Block) : b.numbers.Nodup := List.nodup_range'

theorem le_saturatingAdd (a : U64) (k : Nat) : a ≤ saturatingAdd a k := by
  rw [Fin.le_def]
  have := a.isLt
  simp only [saturatingAdd]
  omega

theorem reserve_under (c : Counters) (kind : Kind) (count above : U64) : c.Under (c.reserve kind count above).1 :=
  setNext_under c (((le_max_left _ _).trans (le_max_left _ _)).trans (le_saturatingAdd _ _))

variable {c : Counters}

/-- **The numbers of a reservation**: from the counter as it was to below the counter as it is, above the floor, and from
the kind's first on. -/
theorem reserve_numbers {kind : Kind} {count above : U64} {n : Nat} (h : n ∈ (c.reserve kind count above).2.numbers) :
    (c.next kind).val ≤ n ∧
      n < ((c.reserve kind count above).1.next kind).val ∧ above.val < n ∧ kind.first.val ≤ n := by
  obtain ⟨hfirst, hstop⟩ := mem_numbers.mp h
  simp only [Counters.reserve, Fin.coe_max] at hfirst hstop
  have hcounter : (c.reserve kind count above).1.next kind = (c.reserve kind count above).2.stop :=
    Counters.next_setNext_self ..
  refine ⟨by omega, by rw [hcounter]; exact hstop, ?_, by omega⟩
  -- a floor that has no number above it leaves an empty block
  have hfloor : (saturatingAdd above 1).val ≤ n := by omega
  have hlast := (saturatingAdd (max (max (c.next kind) kind.first) (saturatingAdd above 1))
    (max 1 (min count.val maxBlock))).isLt
  have := above.isLt
  simp only [saturatingAdd] at hfloor
  omega

variable {p : Kind × Nat}

theorem mem_numbered_cons {ask : Ask} {asks : List Ask} {b : Block} {blocks : List Block} :
    p ∈ numbered (ask :: asks) (b :: blocks) ↔ (p.1 = ask.kind ∧ p.2 ∈ b.numbers) ∨ p ∈ numbered asks blocks := by
  obtain ⟨k, n⟩ := p
  simp only [numbered, List.zip_cons_cons, List.flatMap_cons, List.mem_append, List.mem_map, Prod.mk.injEq]
  constructor
  · rintro (⟨m, hm, rfl, rfl⟩ | h)
    · exact .inl ⟨rfl, hm⟩
    · exact .inr h
  · rintro (⟨rfl, hm⟩ | h)
    · exact .inl ⟨n, hm, rfl, rfl⟩
    · exact .inr h

theorem numbered_cons (ask : Ask) (asks : List Ask) (b : Block) (blocks : List Block) :
    numbered (ask :: asks) (b :: blocks) = b.numbers.map (fun n => (ask.kind, n)) ++ numbered asks blocks := rfl

theorem reserveAll_under (adopted : Bool) : ∀ (asks : List Ask) (c : Counters), c.Under (reserveAll adopted c asks).1
  | [], c => Counters.Under.refl c
  | ask :: asks, c => by
    dsimp only [reserveAll]
    split
    · exact (reserve_under c ask.kind ask.count ask.above).trans (reserveAll_under adopted asks _)
    · exact reserveAll_under adopted asks c

/-- **The numbers of all the blocks** lie between the counters before and those after. -/
theorem reserveAll_numbers (adopted : Bool) : ∀ (asks : List Ask) (c : Counters),
    ∀ p ∈ numbered asks (reserveAll adopted c asks).2,
      (c.next p.1).val ≤ p.2 ∧ p.2 < ((reserveAll adopted c asks).1.next p.1).val
  | [], c => by simp [numbered]
  | ask :: asks, c => by
    have hrest := reserveAll_numbers adopted asks
    intro p hp
    dsimp only [reserveAll] at hp ⊢
    split at hp
    · next hserved =>
      rw [if_pos hserved]
      rcases mem_numbered_cons.mp hp with ⟨hkind, hn⟩ | hp
      · obtain ⟨hlow, hhigh, -, -⟩ := reserve_numbers hn
        rw [hkind]
        exact ⟨hlow, hhigh.trans_le (reserveAll_under adopted asks _ ask.kind)⟩
      · obtain ⟨hlow, hhigh⟩ := hrest _ p hp
        exact ⟨(Fin.le_def.mp (reserve_under c ask.kind ask.count ask.above p.1)).trans hlow, hhigh⟩
    · next hserved =>
      rw [if_neg hserved]
      rcases mem_numbered_cons.mp hp with ⟨-, hn⟩ | hp
      · cases hn
      · exact hrest c p hp

/-- Each ask's block starts where the ones before it left the counter, so no number is in two. -/
theorem reserveAll_nodup (adopted : Bool) : ∀ (asks : List Ask) (c : Counters),
    (numbered asks (reserveAll adopted c asks).2).Nodup
  | [], c => List.nodup_nil
  | ask :: asks, c => by
    dsimp only [reserveAll]
    split
    · rw [numbered_cons, List.nodup_append']
      refine ⟨(numbers_nodup _).map (fun m n h => (Prod.mk.inj h).2), reserveAll_nodup adopted asks _, ?_⟩
      intro p hp hq
      obtain ⟨n, hn, rfl⟩ := List.mem_map.mp hp
      have hbelow := (reserve_numbers hn).2.1
      have habove := (reserveAll_numbers adopted asks _ _ hq).1
      exact absurd habove (by simpa using hbelow)
    · rw [numbered_cons]
      simpa using reserveAll_nodup adopted asks c

theorem reserveAll_floor (adopted : Bool) : ∀ (asks : List Ask) (c : Counters),
    ∀ p ∈ asks.zip (reserveAll adopted c asks).2, ∀ n ∈ p.2.numbers, p.1.above.val < n ∧ p.1.kind.first.val ≤ n
  | [], c => by simp
  | ask :: asks, c => by
    intro p hp n hn
    dsimp only [reserveAll] at hp
    split at hp
    · rcases List.mem_cons.mp hp with rfl | hp
      · exact (reserve_numbers hn).2.2
      · exact reserveAll_floor adopted asks _ p hp n hn
    · rcases List.mem_cons.mp hp with rfl | hp
      · cases hn
      · exact reserveAll_floor adopted asks c p hp n hn

theorem handOut_cons (persisted : Bool) (ask : Ask) (asks : List Ask) (b : Block) (blocks : List Block) :
    handOut persisted (ask :: asks) (b :: blocks) =
      (if persisted || ask.kind = .window then b else Block.empty) :: handOut persisted asks blocks := rfl

theorem numbered_handOut (persisted : Bool) : ∀ (asks : List Ask) (blocks : List Block),
    numbered asks (handOut persisted asks blocks) =
      (numbered asks blocks).filter (fun p => persisted || p.1 = .window)
  | [], blocks => by simp [numbered]
  | ask :: asks, [] => by simp [numbered, handOut]
  | ask :: asks, b :: blocks => by
    rw [handOut_cons, numbered_cons, numbered_cons, List.filter_append, numbered_handOut persisted asks blocks]
    congr 1
    by_cases hkept : (persisted || ask.kind = .window) = true
    · rw [if_pos hkept, List.filter_eq_self.mpr]
      rintro p hp
      obtain ⟨n, -, rfl⟩ := List.mem_map.mp hp
      exact hkept
    · rw [if_neg hkept, numbers_empty, List.map_nil, eq_comm, List.filter_eq_nil_iff]
      rintro p hp
      obtain ⟨n, -, rfl⟩ := List.mem_map.mp hp
      exact hkept

theorem handOut_floor {persisted : Bool} : ∀ {asks : List Ask} {blocks : List Block},
    (∀ p ∈ asks.zip blocks, ∀ n ∈ p.2.numbers, p.1.above.val < n ∧ p.1.kind.first.val ≤ n) →
    ∀ p ∈ asks.zip (handOut persisted asks blocks), ∀ n ∈ p.2.numbers, p.1.above.val < n ∧ p.1.kind.first.val ≤ n
  | [], blocks, _ => by simp
  | ask :: asks, [], _ => by simp [handOut]
  | ask :: asks, b :: blocks, h => by
    intro p hp n hn
    rw [handOut_cons, List.zip_cons_cons] at hp
    rcases List.mem_cons.mp hp with rfl | hp
    · dsimp only at hn ⊢
      split at hn
      · exact h (ask, b) (List.mem_cons_self ..) n hn
      · cases hn
    · exact handOut_floor (fun q hq => h q (List.mem_cons_of_mem _ hq)) p hp n hn

/-! ## The file and the counters -/

/-- The file, if there is one to read, is this version's and has no number above the counters. -/
def Behind (disk : Option Contents) (c : Counters) : Prop :=
  ∀ contents, disk = some contents → ofOtherVersion contents = false ∧ ∀ file, contents.read = .ok file → file.Under c

theorem Behind.mono {disk : Option Contents} {c c' : Counters} (h : Behind disk c) (hc : c.Under c') : Behind disk c' :=
  fun contents hdisk => ⟨(h contents hdisk).1, fun file hread => ((h contents hdisk).2 file hread).trans hc⟩

theorem behind_file (c : Counters) : Behind (some c.file) c := by
  rintro contents ⟨⟩
  refine ⟨by rw [ofOtherVersion, read_file], ?_⟩
  intro file hread
  rw [read_file] at hread
  cases hread
  exact Counters.Under.refl c

/-- **What adopting the file does**: it only raises the counters, and one adopted is not ahead of them. -/
theorem adoptIdsFile_spec (disk : Option Contents) (readable : Bool) (c : Counters) :
    c.Under (adoptIdsFile disk readable c).1 ∧
      ((adoptIdsFile disk readable c).2 = .adopted → Behind disk (adoptIdsFile disk readable c).1) := by
  unfold adoptIdsFile
  split
  case isFalse => exact ⟨Counters.Under.refl c, fun h => nomatch h⟩
  split
  · exact ⟨Counters.Under.refl c, fun _ contents hdisk => nomatch hdisk⟩
  next contents =>
  split
  · next c' hload =>
    obtain ⟨hunder, file, hread, hfile⟩ := load_under hload
    refine ⟨hunder, ?_⟩
    rintro - _ ⟨⟩
    refine ⟨by rw [ofOtherVersion, hread], ?_⟩
    intro file' hread'
    rw [hread] at hread'
    cases hread'
    exact hfile
  · exact ⟨Counters.Under.refl c, fun h => nomatch h⟩
  · next hload =>
    refine ⟨Counters.Under.refl c, ?_⟩
    rintro - _ ⟨⟩
    have hread : contents.read = .error .unreadable := by
      unfold Counters.load at hload
      split at hload
      · cases hload
      · next hread =>
        rw [hread]
        exact hload
    rw [ofOtherVersion, hread]
    exact ⟨rfl, fun file hok => nomatch hok⟩

def adoption (disk : Option Contents) (h : Host) (readable : Bool) : Counters × IdsFile :=
  if h.file = .unread then adoptIdsFile disk readable h.counters else (h.counters, h.file)

theorem adoption_spec {disk : Option Contents} {h : Host} (hbehind : h.file = .adopted → Behind disk h.counters)
    (readable : Bool) : h.counters.Under (adoption disk h readable).1 ∧
      ((adoption disk h readable).2 = .adopted → Behind disk (adoption disk h readable).1) := by
  unfold adoption
  split
  · exact adoptIdsFile_spec disk readable h.counters
  · exact ⟨Counters.Under.refl _, hbehind⟩

/-- **What a reservation does**, by what became of its write. -/
theorem reserveBlocks_cases (disk : Option Contents) (h : Host) (asks : List Ask) (readable : Bool) (write : Write) :
    ∃ c file adopted, adoption disk h readable = (c, file) ∧ adopted = decide (file = .adopted) ∧
      (reserveBlocks disk h asks readable write =
          (some { h with counters := (reserveAll adopted c asks).1, file := file }, disk,
            handOut false asks (reserveAll adopted c asks).2) ∨
        (file = .adopted ∧
          (reserveBlocks disk h asks readable write =
              (some { h with counters := (reserveAll adopted c asks).1, file := file },
                some (reserveAll adopted c asks).1.file, handOut true asks (reserveAll adopted c asks).2) ∨
            reserveBlocks disk h asks readable write = (none, some (reserveAll adopted c asks).1.file, []) ∨
            reserveBlocks disk h asks readable write = (none, disk, [])))) := by
  refine ⟨_, _, _, rfl, rfl, ?_⟩
  by_cases hadopted : (adoption disk h readable).2 = .adopted
  · cases write with
    | landed => exact .inr ⟨hadopted, .inl (if_pos (decide_eq_true hadopted))⟩
    | failed => exact .inl (if_pos (decide_eq_true hadopted))
    | crashed landed =>
      cases landed
      · exact .inr ⟨hadopted, .inr (.inr (if_pos (decide_eq_true hadopted)))⟩
      · exact .inr ⟨hadopted, .inr (.inl (if_pos (decide_eq_true hadopted)))⟩
  · exact .inl (if_neg (by rwa [decide_eq_true_eq]))

/-- Every number the blocks of a reservation hold is above its ask's floor and no lower than its kind's first. -/
theorem reserveBlocks_floor (disk : Option Contents) (h : Host) (asks : List Ask) (readable : Bool) (write : Write) :
    ∀ p ∈ asks.zip (reserveBlocks disk h asks readable write).2.2, ∀ n ∈ p.2.numbers,
      p.1.above.val < n ∧ p.1.kind.first.val ≤ n := by
  obtain ⟨c, file, adopted, -, -, hcases⟩ := reserveBlocks_cases disk h asks readable write
  rcases hcases with heq | ⟨-, heq | heq | heq⟩ <;> rw [heq]
  · exact handOut_floor (reserveAll_floor adopted asks c)
  · exact handOut_floor (reserveAll_floor adopted asks c)
  · simp
  · simp

/-! ## Over all launches -/

def Covers (disk : Option Contents) (p : Kind × Nat) : Prop :=
  ∃ contents file, disk = some contents ∧ contents.read = .ok file ∧ p.2 < (file.next p.1).val

def OtherVersion (disk : Option Contents) : Prop := ∃ contents, disk = some contents ∧ ofOtherVersion contents = true

structure Kept (w : World) : Prop where
  once   : w.handed.Nodup
  onDisk : ∀ p ∈ w.handed, OtherVersion w.disk ∨ Covers w.disk p
  behind : ∀ h, w.host = some h → h.file = .adopted → Behind w.disk h.counters
  labels : ∀ h, w.host = some h → h.labels.Nodup ∧ ∀ n ∈ h.labels, n < (h.counters.next .window).val

variable {w : World}

theorem Kept.ahead (hw : Kept w) (hc : Behind w.disk c) (hp : p ∈ w.handed) :
    p.2 < (c.next p.1).val := by
  rcases hw.onDisk p hp with ⟨contents, hdisk, hother⟩ | ⟨contents, file, hdisk, hread, hbelow⟩
  · rw [(hc contents hdisk).1] at hother
    cases hother
  · exact hbelow.trans_le ((hc contents hdisk).2 file hread p.1)

theorem covers_file (h : p.2 < (c.next p.1).val) : Covers (some c.file) p :=
  ⟨c.file, c, rfl, read_file c, h⟩

theorem labels_spec {asks : List Ask} (adopted persisted : Bool) {labels : List Nat}
    (hl : labels = ((numbered asks (handOut persisted asks (reserveAll adopted c asks).2)).filter (fun p => p.1 = .window)).map Prod.snd) :
    
    labels.Nodup ∧ ∀ n ∈ labels, (c.next .window).val ≤ n ∧ n < ((reserveAll adopted c asks).1.next .window).val := by
  subst hl
  rw [numbered_handOut]
  constructor
  · refine List.Nodup.map_on ?_ (((reserveAll_nodup adopted asks c).filter _).filter _)
    rintro ⟨k, m⟩ hk ⟨k', n⟩ hk' rfl
    obtain rfl : k = .window := by simpa using (List.mem_filter.mp hk).2
    obtain rfl : k' = .window := by simpa using (List.mem_filter.mp hk').2
    rfl
  · intro n hn
    obtain ⟨⟨k, m⟩, hp, rfl⟩ := List.mem_map.mp hn
    obtain ⟨hp, hk⟩ := List.mem_filter.mp hp
    obtain rfl : k = .window := by simpa using hk
    exact reserveAll_numbers adopted asks c _ (List.mem_filter.mp hp).1

theorem labels_kept {h : Host} (hh : h.labels.Nodup ∧ ∀ n ∈ h.labels, n < (h.counters.next .window).val) {asks : List Ask}
    (hc : h.counters.Under c) {adopted persisted : Bool} {labels : List Nat}
    (hl : labels = ((numbered asks (handOut persisted asks (reserveAll adopted c asks).2)).filter (fun p => p.1 = .window)).map Prod.snd) :
    
    (h.labels ++ labels).Nodup ∧
      ∀ n ∈ h.labels ++ labels, n < ((reserveAll adopted c asks).1.next .window).val := by
  obtain ⟨hnodup, hwithin⟩ := labels_spec adopted persisted hl
  have hgrown := Fin.le_def.mp (hc .window)
  have hserved := Fin.le_def.mp (reserveAll_under adopted asks c .window)
  constructor
  · rw [List.nodup_append']
    refine ⟨hh.1, hnodup, ?_⟩
    intro n hold hnew
    have hbelow := hh.2 n hold
    have habove := (hwithin n hnew).1
    omega
  · intro n hn
    rcases List.mem_append.mp hn with hn | hn
    · have hbelow := hh.2 n hn
      omega
    · exact (hwithin n hn).2

theorem handed_unwritten (asks : List Ask) (blocks : List Block) :
    (numbered asks (handOut false asks blocks)).filter (fun p => p.1 ≠ .window) = [] := by
  rw [numbered_handOut, List.filter_filter, List.filter_eq_nil_iff]
  simp

theorem handed_dead (asks : List Ask) : (numbered asks []).filter (fun p => p.1 ≠ .window) = [] := by
  rw [numbered, List.zip_nil_right]
  rfl

/-- **A reservation keeps the numbers apart.**  A number it hands out is at or above a counter that is above everything
handed out before, and the file written says so. -/
theorem reserve_kept (hw : Kept w) (asks : List Ask) (readable : Bool) (write : Write) :
    Kept (step w (.reserve asks readable write)) := by
  simp only [step]
  cases hhost : w.host with
  | none => exact hw
  | some h =>
  dsimp only
  obtain ⟨c, file, adopted, hadoption, -, hcases⟩ := reserveBlocks_cases w.disk h asks readable write
  have hspec := adoption_spec (hw.behind h hhost) readable
  rw [hadoption] at hspec
  obtain ⟨hunder, hbehind⟩ : h.counters.Under c ∧ (file = .adopted → Behind w.disk c) := hspec
  have hserved := reserveAll_under adopted asks c
  rcases hcases with heq | ⟨hadopted, heq | heq | heq⟩ <;> rw [heq] <;> dsimp only
  · -- no write landed
    rw [handed_unwritten, List.append_nil]
    refine ⟨hw.once, hw.onDisk, ?_, ?_⟩
    · rintro _ ⟨⟩ hadopted
      exact (hbehind hadopted).mono hserved
    · rintro _ ⟨⟩
      exact labels_kept (hw.labels h hhost) hunder rfl
  · have hnew : ∀ p ∈ (numbered asks (handOut true asks (reserveAll adopted c asks).2)).filter (fun p => p.1 ≠ .window),
        (c.next p.1).val ≤ p.2 ∧ p.2 < ((reserveAll adopted c asks).1.next p.1).val := by
      intro p hp
      rw [numbered_handOut] at hp
      exact reserveAll_numbers adopted asks c p (List.mem_filter.mp (List.mem_filter.mp hp).1).1
    refine ⟨?_, ?_, ?_, ?_⟩
    · rw [List.nodup_append', numbered_handOut]
      refine ⟨hw.once, ((reserveAll_nodup adopted asks c).filter _).filter _, ?_⟩
      intro p hold hp
      have hbelow := hw.ahead (hbehind hadopted) hold
      have habove := (hnew p (by rwa [numbered_handOut])).1
      omega
    · intro p hp
      rcases List.mem_append.mp hp with hp | hp
      · exact .inr (covers_file ((hw.ahead (hbehind hadopted) hp).trans_le (hserved p.1)))
      · exact .inr (covers_file (hnew p hp).2)
    · rintro _ ⟨⟩ -
      exact behind_file _
    · rintro _ ⟨⟩
      exact labels_kept (hw.labels h hhost) hunder rfl
  · -- it died after the write landed
    rw [handed_dead, List.append_nil]
    refine ⟨hw.once, ?_, (fun _ hnone => nomatch hnone), fun _ hnone => nomatch hnone⟩
    exact fun p hp => .inr (covers_file ((hw.ahead (hbehind hadopted) hp).trans_le (hserved p.1)))
  · rw [handed_dead, List.append_nil]
    exact ⟨hw.once, hw.onDisk, (fun _ hnone => nomatch hnone), fun _ hnone => nomatch hnone⟩

theorem seedIds_kept (hw : Kept w) (saved : Saved) (readable : Bool) :
    Kept (step w (.seedIds saved readable)) := by
  refine ⟨hw.once, hw.onDisk, ?_, ?_⟩
  all_goals
    intro h' hhost'
    obtain ⟨h, hhost, rfl⟩ := Option.map_eq_some_iff.mp hhost'
  · exact (adoptIdsFile_spec w.disk readable _).2
  · obtain ⟨hnodup, hbelow⟩ := hw.labels h hhost
    refine ⟨hnodup, fun n hn => (hbelow n hn).trans_le ?_⟩
    have hwindow := seed_under h.counters .window saved.nextWs
    have hworkspace := seed_under (h.counters.seed .window saved.nextWs) .workspace saved.nextWorkspace
    have hsurface := seed_under ((h.counters.seed .window saved.nextWs).seed .workspace saved.nextWorkspace) .surface
      saved.nextSurface
    exact (hwindow.trans (hworkspace.trans (hsurface.trans (adoptIdsFile_spec w.disk readable _).1))) .window

theorem step_kept (w : World) (e : Event) (hw : Kept w) : Kept (step w e) := by
  cases e with
  | launch =>
    refine ⟨hw.once, hw.onDisk, ?_, ?_⟩
    · rintro _ ⟨⟩ habsent
      cases habsent
    · rintro _ ⟨⟩
      exact ⟨List.nodup_nil, by simp⟩
  | crash => exact ⟨hw.once, hw.onDisk, (fun _ hnone => nomatch hnone), fun _ hnone => nomatch hnone⟩
  | otherVersion contents =>
    simp only [step]
    split
    · next hwritten =>
      obtain ⟨hnone, hother⟩ := Bool.and_eq_true_iff.mp hwritten
      have hnone : w.host = none := Option.isNone_iff_eq_none.mp hnone
      have habsurd {h : Host} (hhost : w.host = some h) : False := by
        rw [hnone] at hhost
        cases hhost
      exact ⟨hw.once, fun p _ => .inl ⟨contents, rfl, hother⟩, fun _ hhost => (habsurd hhost).elim,
        fun _ hhost => (habsurd hhost).elim⟩
    · exact hw
  | seedIds saved readable => exact seedIds_kept hw saved readable
  | seed kind next =>
    refine ⟨hw.once, hw.onDisk, ?_, ?_⟩
    all_goals
      intro h' hhost'
      obtain ⟨h, hhost, rfl⟩ := Option.map_eq_some_iff.mp hhost'
    · exact fun hadopted => (hw.behind h hhost hadopted).mono (seed_under h.counters kind next)
    · obtain ⟨hnodup, hbelow⟩ := hw.labels h hhost
      exact ⟨hnodup, fun n hn => (hbelow n hn).trans_le (seed_under h.counters kind next .window)⟩
  | reserve asks readable write => exact reserve_kept hw asks readable write

def reached (disk : Option Contents) (events : List Event) : World := Steps.run step ⟨disk, none, []⟩ events

theorem reached_kept (disk : Option Contents) (events : List Event) : Kept (reached disk events) := by
  refine Steps.run_invariant step_kept events _ ⟨List.nodup_nil, by simp, ?_, ?_⟩ <;> exact fun _ hnone => nomatch hnone

theorem step_otherVersion (hw : Kept w) (hother : OtherVersion w.disk) {e : Event}
    (he : ∀ contents, e ≠ .otherVersion contents) : (step w e).disk = w.disk := by
  cases e with
  | launch => rfl
  | crash => rfl
  | otherVersion contents => exact absurd rfl (he contents)
  | seedIds saved readable => rfl
  | seed kind next => rfl
  | reserve asks readable write =>
    simp only [step]
    cases hhost : w.host with
    | none => rfl
    | some h =>
    dsimp only
    obtain ⟨c, file, adopted, hadoption, -, hcases⟩ := reserveBlocks_cases w.disk h asks readable write
    have hspec := adoption_spec (hw.behind h hhost) readable
    rw [hadoption] at hspec
    rcases hcases with heq | ⟨hadopted, -⟩
    · rw [heq]
    · obtain ⟨contents, hdisk, hother⟩ := hother
      rw [((hspec.2 hadopted) contents hdisk).1] at hother
      cases hother

theorem step_covers {e : Event} (hp : p ∈ (step w e).handed) (hnew : p ∉ w.handed) :
    Covers (step w e).disk p := by
  cases e with
  | launch => exact absurd hp hnew
  | crash => exact absurd hp hnew
  | otherVersion contents =>
    simp only [step] at hp
    split at hp <;> exact absurd hp hnew
  | seedIds saved readable => exact absurd hp hnew
  | seed kind next => exact absurd hp hnew
  | reserve asks readable write =>
    simp only [step] at hp ⊢
    cases hhost : w.host with
    | none => rw [hhost] at hp; exact absurd hp hnew
    | some h =>
    rw [hhost] at hp
    dsimp only at hp ⊢
    obtain ⟨c, file, adopted, -, -, hcases⟩ := reserveBlocks_cases w.disk h asks readable write
    rcases hcases with heq | ⟨-, heq | heq | heq⟩ <;> rw [heq] at hp ⊢
    · rw [handed_unwritten, List.append_nil] at hp
      exact absurd hp hnew
    · have hp := (List.mem_append.mp hp).resolve_left hnew
      rw [numbered_handOut] at hp
      exact covers_file (reserveAll_numbers adopted asks c p (List.mem_filter.mp (List.mem_filter.mp hp).1).1).2
    · exact absurd ((List.mem_append.mp hp).resolve_left hnew) (by simp [numbered])
    · exact absurd ((List.mem_append.mp hp).resolve_left hnew) (by simp [numbered])

/-- **No number is reused.**  Whatever the launches, the failed writes and the crashes: no Surface or Workspace number is
handed out twice over all launches and no label twice in one; every number is above its floor and at least its kind's first;
the file on disk covers a number before it is handed out; and another version's file stays as it is. -/
theorem numbers_never_reused (disk : Option Contents) (events : List Event) :
    (reached disk events).handed.Nodup ∧
    (∀ h, (reached disk events).host = some h → h.labels.Nodup) ∧
    (∀ h (asks : List Ask) readable write, ∀ p ∈ asks.zip (reserveBlocks (reached disk events).disk h asks readable write).2.2,
      ∀ n ∈ p.2.numbers, p.1.above.val < n ∧ p.1.kind.first.val ≤ n) ∧
    (∀ e, ∀ p ∈ (step (reached disk events) e).handed, p ∉ (reached disk events).handed →
      Covers (step (reached disk events) e).disk p) ∧
    (∀ e, OtherVersion (reached disk events).disk → (∀ contents, e ≠ .otherVersion contents) →
      (step (reached disk events) e).disk = (reached disk events).disk) := by
  have hw := reached_kept disk events
  exact ⟨hw.once, fun h hhost => (hw.labels h hhost).1,
    fun h asks readable write => reserveBlocks_floor _ h asks readable write,
    fun e p hp hnew => step_covers hp hnew,
    fun e hother he => step_otherVersion hw hother he⟩

end Ids
end Dormouse
