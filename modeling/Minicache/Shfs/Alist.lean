/-
  File:      Minicache/Shfs/Alist.lean
  Subject:   The volume allocator `shfs_alist_*` (shfs_alloc.h, not in src/), from the spec.

  The spec's allocator keeps an ordered list of non-overlapping occupied ranges and merges
  neighbours on `register`; such a list is fixed by the set of occupied chunks, which is what
  `Alist.belegt` records. What the tool relies on:

  * `shfsAlistRegister_eq`, `shfsAlistUnregister_eq`: each call either fails and changes nothing
    or marks / clears exactly its range;
  * `unregister_register`: releasing a reservation just taken restores the allocator;
  * `shfsAlistFindFree_spec`: a non-zero answer of `find_free(len)` is a free range of `len`
    chunks inside `[2, volsize + 1)`; `findFree_first_le`: FIRST-fit finds one whenever one
    starts in `[2, …)`; `findFree_ne_zero`: FIRST-fit and BEST-fit both answer whenever there is
    room.
-/
import Minicache.Shfs.Format
import Mathlib.Data.List.Range

namespace Minicache.Shfs

/-! ## 1. State and operations -/

/-- Modelled from the spec: `struct shfs_alist` (shfs_alloc.h is not in src/). The set of
    registered chunks, the volume size it was made for, and the allocation policy. -/
structure Alist where
  volsize : Nat
  allocator : Allocator
  belegt : Nat → Bool

@[ext] theorem Alist.ext' {a b : Alist} (hv : a.volsize = b.volsize)
    (ha : a.allocator = b.allocator) (hb : ∀ c, a.belegt c = b.belegt c) : a = b := by
  cases a; cases b; simp only [Alist.mk.injEq]; exact ⟨hv, ha, funext hb⟩

/-- No chunk of `[start, start + len)` is registered. -/
def Alist.frei (al : Alist) (start len : Nat) : Bool :=
  (List.range len).all fun k => !al.belegt (start + k)

/-- Every chunk of `[start, start + len)` is registered. -/
def Alist.ganzBelegt (al : Alist) (start len : Nat) : Bool :=
  (List.range len).all fun k => al.belegt (start + k)

theorem Alist.frei_iff {al : Alist} {start len : Nat} :
    al.frei start len = true ↔ ∀ c, start ≤ c → c < start + len → al.belegt c = false := by
  simp only [Alist.frei, List.all_eq_true, List.mem_range, Bool.not_eq_true']
  constructor
  · intro h c h1 h2
    have := h (c - start) (by omega)
    rwa [Nat.add_sub_cancel' h1] at this
  · exact fun h k hk => h (start + k) (by omega) (by omega)

theorem Alist.ganzBelegt_iff {al : Alist} {start len : Nat} :
    al.ganzBelegt start len = true ↔ ∀ c, start ≤ c → c < start + len → al.belegt c = true := by
  simp only [Alist.ganzBelegt, List.all_eq_true, List.mem_range]
  constructor
  · intro h c h1 h2
    have := h (c - start) (by omega)
    rwa [Nat.add_sub_cancel' h1] at this
  · exact fun h k hk => h (start + k) (by omega) (by omega)

/-- Whether chunk `c` lies in `[start, start + len)`. -/
def inBereich (start len c : Nat) : Bool := start ≤ c && c < start + len

theorem inBereich_iff {start len c : Nat} : inBereich start len c = true ↔ start ≤ c ∧ c < start + len := by
  simp [inBereich]

/-- Modelled from the spec: `shfs_alloc_alist(volsize, allocator)`, an allocator with nothing
    registered; it fails for a policy it does not know. -/
def shfsAllocAlist (volsize : Nat) (allocator : Allocator) : Option Alist :=
  if allocator = .unbekannt then none else some ⟨volsize, allocator, fun _ => false⟩

/-- Modelled from the spec: `shfs_alist_register(al, start, len)` "fails if it overlaps an
    existing range"; otherwise the range is occupied. -/
def shfsAlistRegister (al : Alist) (start len : Nat) : Option Alist :=
  if al.frei start len then
    some { al with belegt := fun c => al.belegt c || inBereich start len c }
  else none

/-- Modelled from the spec: `shfs_alist_unregister(al, start, len)` "fails if the range is not
    fully occupied"; otherwise the range (or the matching sub-range of a merged one) is freed. -/
def shfsAlistUnregister (al : Alist) (start len : Nat) : Option Alist :=
  if al.ganzBelegt start len then
    some { al with belegt := fun c => al.belegt c && !inBereich start len c }
  else none

/-- Length of the run of free chunks from `s`, counting at most `n` chunks. -/
def Alist.lauf (al : Alist) : Nat → Nat → Nat
  | 0, _ => 0
  | n + 1, s => if al.belegt s then 0 else al.lauf n (s + 1) + 1

/-- The free gaps inside `[2, volsize + 1)`, lowest first, as `(start, length)`. -/
def Alist.luecken (al : Alist) : List (Nat × Nat) :=
  (List.range' 2 (al.volsize - 1)).filterMap fun s =>
    if !al.belegt s && (s == 2 || al.belegt (s - 1)) then some (s, al.lauf (al.volsize + 1 - s) s)
    else none

/-- The smallest gap of at least `len` chunks, the lowest of equal ones. -/
def bestFit (len : Nat) : List (Nat × Nat) → Option (Nat × Nat)
  | [] => none
  | g :: gs =>
    match bestFit len gs with
    | none => if len ≤ g.2 then some g else none
    | some b => if len ≤ g.2 ∧ g.2 ≤ b.2 then some g else some b

/-- Modelled from the spec: `shfs_alist_find_free(al, len)`. "Returns the lowest start of a free
    gap ≥ length (FIRST) or the smallest such gap (BEST). length == 0 returns 0. Returns 0 when no
    such gap exists. The gap must lie entirely in [2, volsize+1)." The lowest start of a gap of at
    least `len` chunks is the lowest start of `len` free chunks, which is how FIRST is written. -/
def shfsAlistFindFree (al : Alist) (len : Nat) : Nat :=
  if len = 0 then 0 else
  match al.allocator with
  | .first =>
    ((List.range' 2 (al.volsize - 1)).find? fun s => al.frei s len && s + len ≤ al.volsize + 1).getD 0
  | .best => ((bestFit len al.luecken).map Prod.fst).getD 0
  | .unbekannt => 0

/-! ## 2. Register and unregister -/

theorem shfsAlistRegister_eq {al al' : Alist} {start len : Nat}
    (h : shfsAlistRegister al start len = some al') :
    al.frei start len = true ∧ al' = { al with belegt := fun c => al.belegt c || inBereich start len c } := by
  unfold shfsAlistRegister at h
  split at h
  · exact ⟨‹_›, (Option.some.inj h).symm⟩
  · cases h

theorem shfsAlistUnregister_eq {al al' : Alist} {start len : Nat}
    (h : shfsAlistUnregister al start len = some al') :
    al.ganzBelegt start len = true ∧
      al' = { al with belegt := fun c => al.belegt c && !inBereich start len c } := by
  unfold shfsAlistUnregister at h
  split at h
  · exact ⟨‹_›, (Option.some.inj h).symm⟩
  · cases h

theorem shfsAlistRegister_of_frei {al : Alist} {start len : Nat} (h : al.frei start len = true) :
    shfsAlistRegister al start len =
      some { al with belegt := fun c => al.belegt c || inBereich start len c } := by
  simp [shfsAlistRegister, h]

/-- **Releasing a reservation just taken restores the allocator.** -/
theorem unregister_register {al : Alist} {start len : Nat} (h : al.frei start len = true) :
    shfsAlistUnregister { al with belegt := fun c => al.belegt c || inBereich start len c }
      start len = some al := by
  have hg : Alist.ganzBelegt { al with belegt := fun c => al.belegt c || inBereich start len c }
      start len = true :=
    Alist.ganzBelegt_iff.mpr fun c h1 h2 => by simp [inBereich_iff.mpr ⟨h1, h2⟩]
  simp only [shfsAlistUnregister, hg, if_true, Option.some.injEq]
  ext c
  · rfl
  · rfl
  · by_cases hc : inBereich start len c = true
    · have := Alist.frei_iff.mp h c (inBereich_iff.mp hc).1 (inBereich_iff.mp hc).2
      simp [hc, this]
    · simp at hc; simp [hc]

/-- A registration, its result ignored, keeps the volume size and the policy, and every chunk
    registered before. -/
theorem register_getD (al : Alist) (start len : Nat) :
    ((shfsAlistRegister al start len).getD al).volsize = al.volsize ∧
      ((shfsAlistRegister al start len).getD al).allocator = al.allocator ∧
      ∀ c, al.belegt c = true → ((shfsAlistRegister al start len).getD al).belegt c = true := by
  unfold shfsAlistRegister
  split
  · exact ⟨rfl, rfl, fun c h => by simp [h]⟩
  · exact ⟨rfl, rfl, fun c h => h⟩

/-! ## 3. find_free -/

theorem lauf_frei (al : Alist) : ∀ n s, al.frei s (al.lauf n s) = true ∧ al.lauf n s ≤ n
  | 0, s => by simp [Alist.lauf, Alist.frei]
  | n + 1, s => by
    unfold Alist.lauf
    split
    · simp [Alist.frei]
    · rename_i hb
      obtain ⟨ih, ihle⟩ := lauf_frei al n (s + 1)
      refine ⟨Alist.frei_iff.mpr fun c h1 h2 => ?_, by omega⟩
      rcases Nat.eq_or_lt_of_le h1 with rfl | h1
      · simpa using hb
      · exact Alist.frei_iff.mp ih c h1 (by omega)

theorem mem_luecken {al : Alist} {g : Nat × Nat} (h : g ∈ al.luecken) :
    2 ≤ g.1 ∧ g.1 + g.2 ≤ al.volsize + 1 ∧ al.frei g.1 g.2 = true := by
  simp only [Alist.luecken, List.mem_filterMap, List.mem_range'_1] at h
  obtain ⟨s, ⟨h2, hv⟩, hs⟩ := h
  split at hs
  · cases hs
    obtain ⟨hf, hle⟩ := lauf_frei al (al.volsize + 1 - s) s
    exact ⟨h2, by simp only; omega, hf⟩
  · cases hs

theorem bestFit_mem {len : Nat} : ∀ {gs : List (Nat × Nat)} {g : Nat × Nat},
    bestFit len gs = some g → g ∈ gs ∧ len ≤ g.2
  | [], _, h => by cases h
  | g' :: gs, g, h => by
    unfold bestFit at h
    split at h
    · split at h
      · cases h; exact ⟨List.mem_cons_self _ _, ‹_›⟩
      · cases h
    · rename_i b hb
      split at h
      · rename_i hg
        cases h; exact ⟨List.mem_cons_self _ _, hg.1⟩
      · cases h
        obtain ⟨hm, hl⟩ := bestFit_mem hb
        exact ⟨List.mem_cons_of_mem _ hm, hl⟩

@[simp] theorem shfsAlistFindFree_zero (al : Alist) : shfsAlistFindFree al 0 = 0 := by
  simp [shfsAlistFindFree]

/-- **A non-zero answer of `find_free(len)` is `len` free chunks inside `[2, volsize + 1)`.** -/
theorem shfsAlistFindFree_spec {al : Alist} {len : Nat} (h : shfsAlistFindFree al len ≠ 0) :
    2 ≤ shfsAlistFindFree al len ∧ shfsAlistFindFree al len + len ≤ al.volsize + 1 ∧
      al.frei (shfsAlistFindFree al len) len = true := by
  unfold shfsAlistFindFree at h ⊢
  split
  · simp_all
  · split
    · cases hf : (List.range' 2 (al.volsize - 1)).find?
          (fun s => al.frei s len && decide (s + len ≤ al.volsize + 1)) with
      | none => simp_all
      | some s =>
        have hs := List.find?_some hf
        have hm := List.mem_range'_1.mp (List.mem_of_find?_eq_some hf)
        simp only [Bool.and_eq_true, decide_eq_true_eq] at hs
        simp only [Option.getD_some]
        exact ⟨hm.1, hs.2, hs.1⟩
    · cases hb : bestFit len al.luecken with
      | none => simp_all
      | some g =>
        obtain ⟨hm, hl⟩ := bestFit_mem hb
        obtain ⟨h2, hv, hf⟩ := mem_luecken hm
        simp only [Option.map_some', Option.getD_some]
        refine ⟨h2, by omega, Alist.frei_iff.mpr fun c h1 h3 => ?_⟩
        exact Alist.frei_iff.mp hf c h1 (by omega)
    · simp_all

/-- `find?` over `[a, a + n)` answers no more than any start it accepts. -/
theorem find?_range'_le {p : Nat → Bool} : ∀ {a n x s : Nat}, (List.range' a n).find? p = some x →
    a ≤ s → s < a + n → p s = true → x ≤ s
  | _, 0, _, _, _, h1, h2, _ => by omega
  | a, n + 1, x, s, h, h1, h2, hp => by
    rw [List.range'_succ, List.find?_cons] at h
    split at h
    · cases h; exact h1
    · rcases Nat.eq_or_lt_of_le h1 with rfl | h1
      · simp_all
      · exact find?_range'_le h (by omega) (by omega) hp

/-- **FIRST-fit finds room whenever there is some**: if `len ≥ 1` free chunks start at `s ≥ 2`
    inside the volume, `find_free` answers a start no higher than `s`. -/
theorem findFree_first_le {al : Alist} {len s : Nat} (hfirst : al.allocator = .first)
    (hlen : 0 < len) (h2 : 2 ≤ s) (hv : s + len ≤ al.volsize + 1) (hf : al.frei s len = true) :
    shfsAlistFindFree al len ≠ 0 ∧ shfsAlistFindFree al len ≤ s := by
  have hne : len ≠ 0 := by omega
  simp only [shfsAlistFindFree, hne, if_false, hfirst]
  have hmem : s ∈ List.range' 2 (al.volsize - 1) := List.mem_range'_1.mpr ⟨h2, by omega⟩
  cases hfd : (List.range' 2 (al.volsize - 1)).find?
      (fun s => al.frei s len && decide (s + len ≤ al.volsize + 1)) with
  | none =>
    have := List.find?_eq_none.mp hfd s hmem
    simp_all
  | some s' =>
    have hm' := List.mem_range'_1.mp (List.mem_of_find?_eq_some hfd)
    refine ⟨by simp only [Option.getD_some]; omega, ?_⟩
    exact find?_range'_le hfd h2 (by omega) (by simp [hf, hv])

/-- A free run of `len ≤ n` chunks from `s` is counted whole. -/
theorem lauf_ge {al : Alist} : ∀ {n s len : Nat}, al.frei s len = true → len ≤ n →
    len ≤ al.lauf n s
  | _, _, 0, _, _ => Nat.zero_le _
  | 0, _, _ + 1, _, hn => absurd hn (by omega)
  | n + 1, s, len + 1, hf, hn => by
    have hs : al.belegt s = false := Alist.frei_iff.mp hf s le_rfl (by omega)
    have hf' : al.frei (s + 1) len = true :=
      Alist.frei_iff.mpr fun c h1 h2 => Alist.frei_iff.mp hf c (by omega) (by omega)
    simp only [Alist.lauf, hs, Bool.false_eq_true, if_false]
    exact Nat.succ_le_succ (lauf_ge hf' (by omega))

/-- A free run of `len ≥ 1` chunks from `s ≥ 2` that starts at `2` or right after an occupied
    chunk is counted in the gap that starts at `s`. -/
theorem luecke_am_anfang {al : Alist} {s len : Nat} (h2 : 2 ≤ s)
    (hanfang : s = 2 ∨ al.belegt (s - 1) = true) (hf : al.frei s len = true) (hlen : 0 < len)
    (hv : s + len ≤ al.volsize + 1) : ∃ g ∈ al.luecken, len ≤ g.2 := by
  have hs : al.belegt s = false := Alist.frei_iff.mp hf s le_rfl (by omega)
  have hc : (!al.belegt s && (s == 2 || al.belegt (s - 1))) = true := by
    rcases hanfang with rfl | h
    · simp [hs]
    · simp [hs, h]
  refine ⟨(s, al.lauf (al.volsize + 1 - s) s), ?_, lauf_ge hf (by omega)⟩
  simp only [Alist.luecken, List.mem_filterMap, List.mem_range'_1]
  exact ⟨s, ⟨h2, by omega⟩, by rw [if_pos hc]⟩

/-- Every free range of `len ≥ 1` chunks inside `[2, volsize + 1)` lies in a gap of at least
    `len` chunks: walking down from `s = 2 + k`, the free run grows until it starts at `2` or
    right after an occupied chunk. -/
theorem luecke_von_frei {al : Alist} (k : Nat) : ∀ {s len : Nat}, s = 2 + k → 0 < len →
    al.frei s len = true → s + len ≤ al.volsize + 1 → ∃ g ∈ al.luecken, len ≤ g.2 := by
  induction k with
  | zero => exact fun hk hlen hf hv => luecke_am_anfang (by omega) (.inl (by omega)) hf hlen hv
  | succ k ih =>
    intro s len hk hlen hf hv
    by_cases hb : al.belegt (s - 1) = true
    · exact luecke_am_anfang (by omega) (.inr hb) hf hlen hv
    · have hf' : al.frei (s - 1) (len + 1) = true := Alist.frei_iff.mpr fun c h1 h2 => by
        rcases Nat.eq_or_lt_of_le h1 with rfl | h1
        · simpa using hb
        · exact Alist.frei_iff.mp hf c (by omega) (by omega)
      obtain ⟨g, hg, hl⟩ := ih (by omega) (by omega) hf' (by omega)
      exact ⟨g, hg, by omega⟩

theorem bestFit_ne_none {len : Nat} : ∀ {gs : List (Nat × Nat)} {g : Nat × Nat}, g ∈ gs →
    len ≤ g.2 → bestFit len gs ≠ none
  | g' :: gs, g, hg, hl => by
    unfold bestFit
    split
    · rename_i hb
      rcases List.mem_cons.mp hg with rfl | hg
      · simp [hl]
      · exact absurd hb (bestFit_ne_none hg hl)
    · split <;> simp

/-- **`find_free` answers whenever there is room**: FIRST-fit and BEST-fit both give a start when
    `len ≥ 1` free chunks lie inside `[2, volsize + 1)`. -/
theorem findFree_ne_zero {al : Alist} {len s : Nat} (hpol : al.allocator ≠ .unbekannt)
    (hlen : 0 < len) (h2 : 2 ≤ s) (hv : s + len ≤ al.volsize + 1) (hf : al.frei s len = true) :
    shfsAlistFindFree al len ≠ 0 := by
  cases hal : al.allocator with
  | first => exact (findFree_first_le hal hlen h2 hv hf).1
  | best =>
    obtain ⟨g, hg, hl⟩ := luecke_von_frei (s - 2) (by omega) hlen hf hv
    cases hb : bestFit len al.luecken with
    | none => exact absurd hb (bestFit_ne_none hg hl)
    | some g' =>
      have := (mem_luecken (bestFit_mem hb).1).1
      simp only [shfsAlistFindFree, Nat.pos_iff_ne_zero.mp hlen, if_false, hal, hb,
        Option.map_some', Option.getD_some]
      omega
  | unbekannt => exact absurd hal hpol

end Minicache.Shfs
