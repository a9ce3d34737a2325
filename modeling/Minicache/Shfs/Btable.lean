/-
  File:      Minicache/Shfs/Btable.lean
  Subject:   The bucket table `shfs_btable_*` (shfs_btable.h, not in src/), from the spec.

  Slot `i` of the on-disk hash table is slot `i mod entries_per_bucket` of bucket
  `i / entries_per_bucket` (spec §6), so the table is one digest per slot index, and a bentry is
  named by its slot index. What the tool relies on:

  * `shfsBtableLookup_some`, `shfsBtableLookup_none`: `lookup(h)` answers the first slot of
    `bucket(h)` holding `h`, or none when no slot of that bucket does;
  * `shfsBtableAddentry_some`, `shfsBtableAddentry_none`: `add_entry(h)` takes the first empty slot
    of `bucket(h)`, and fails exactly when that bucket has none;
  * `shfsBtableLookup_erste`: `lookup(h)` finds the one slot of `bucket(h)` holding `h`, and
    `shfsBtableLookup_addentry` the slot a preceding `add_entry(h)` took.
-/
import Minicache.Shfs.Format
import Mathlib.Data.List.Range

namespace Minicache.Shfs

/-! ## 1. State -/

/-- Modelled from the spec: `struct shfs_bentry`, where a slot's record lives in the hash-table
    chunk cache. -/
structure Bentry where
  hentryHtchunk : Nat
  hentryHtoffset : Nat
  deriving DecidableEq, Repr

/-- Modelled from the spec: the bucket table `shfs_alloc_btable(nb_buckets, entries_per_bucket,
    hlen)` builds: the digest held by each slot (`0`: empty) and each slot's bentry. -/
structure Btable where
  nbBkts : Nat
  elPerBkt : Nat
  hlen : Nat
  h : Nat → Nat
  bentry : Nat → Bentry

@[ext] theorem Btable.ext' {a b : Btable} (h1 : a.nbBkts = b.nbBkts) (h2 : a.elPerBkt = b.elPerBkt)
    (h3 : a.hlen = b.hlen) (h4 : a.h = b.h) (h5 : a.bentry = b.bentry) : a = b := by
  cases a; cases b; simp only [Btable.mk.injEq]; exact ⟨h1, h2, h3, h4, h5⟩

/-- The number of slots. -/
def Btable.nbEntries (bt : Btable) : Nat := bt.nbBkts * bt.elPerBkt

/-- The number of binary digits of `m`, looking at no more than `fuel` of them. -/
def bitLaenge : Nat → Nat → Nat
  | 0, _ => 0
  | fuel + 1, m => if m = 0 then 0 else bitLaenge fuel (m / 2) + 1

/-- `ceil(log2 n)`, the number of digest bits that select a bucket: the binary length of
    `n - 1`. -/
def bucketBits (n : Nat) : Nat := if n ≤ 1 then 0 else bitLaenge n (n - 1)

/-- Modelled from the spec (§4.3, §9): `bucket(h)`, the first `ceil(log2 nb_buckets)` bits of the
    `hlen`-byte digest read big-endian, modulo `nb_buckets`. -/
def Btable.bucket (bt : Btable) (d : Nat) : Nat :=
  (d >>> (8 * bt.hlen - bucketBits bt.nbBkts)) % bt.nbBkts

/-- The first slot index of the bucket of `d`. -/
def Btable.basis (bt : Btable) (d : Nat) : Nat := bt.bucket d * bt.elPerBkt

/-- Modelled from the spec: `shfs_alloc_btable(nb_buckets, entries_per_bucket, hlen)`, every slot
    empty. -/
def shfsAllocBtable (nbBkts elPerBkt hlen : Nat) : Btable :=
  ⟨nbBkts, elPerBkt, hlen, fun _ => 0, fun _ => ⟨0, 0⟩⟩

/-! ## 2. Operations -/

/-- Modelled from the spec: `shfs_btable_lookup(bt, h)` "searches the bucket bucket(digest)
    linearly across its entries_per_bucket slots; matches the full digest". -/
def shfsBtableLookup (bt : Btable) (d : Nat) : Option Nat :=
  ((List.range bt.elPerBkt).find? fun k => bt.h (bt.basis d + k) == d).map (bt.basis d + ·)

/-- Modelled from the spec: `shfs_btable_addentry(bt, h)` "finds an empty slot in bucket(digest);
    fails if the bucket is saturated". -/
def shfsBtableAddentry (bt : Btable) (d : Nat) : Option (Nat × Btable) :=
  ((List.range bt.elPerBkt).find? fun k => bt.h (bt.basis d + k) == 0).map fun k =>
    (bt.basis d + k, { bt with h := Function.update bt.h (bt.basis d + k) d })

/-- Modelled from the spec: `shfs_btable_rmentry(bt, h)` "clears the slot" `lookup(h)` finds. -/
def shfsBtableRmentry (bt : Btable) (d : Nat) : Btable :=
  match shfsBtableLookup bt d with
  | some i => { bt with h := Function.update bt.h i 0 }
  | none => bt

/-- Modelled from the spec: `shfs_btable_feed(bt, i, h)` installs the digest read from slot `i`
    (an empty one leaves the slot empty). -/
def shfsBtableFeed (bt : Btable) (i d : Nat) : Btable :=
  { bt with h := Function.update bt.h i d }

/-- Modelled from the spec: `foreach_htable_el` yields the non-empty slots, bucket index
    ascending, then slot index ascending: slot index ascending. -/
def Btable.belegte (bt : Btable) : List Nat :=
  (List.range bt.nbEntries).filter fun i => bt.h i != 0

/-! ## 3. What the operations answer -/

theorem find?_range_some {p : Nat → Bool} {n k : Nat} (h : (List.range n).find? p = some k) :
    k < n ∧ p k = true := ⟨List.mem_range.mp (List.mem_of_find?_eq_some h), List.find?_some h⟩

theorem find?_range_none {p : Nat → Bool} {n : Nat} (h : (List.range n).find? p = none) :
    ∀ k < n, p k = false := fun k hk => by
  simpa using List.find?_eq_none.mp h k (List.mem_range.mpr hk)

theorem shfsBtableLookup_some {bt : Btable} {d i : Nat} (h : shfsBtableLookup bt d = some i) :
    bt.h i = d ∧ bt.basis d ≤ i ∧ i < bt.basis d + bt.elPerBkt := by
  unfold shfsBtableLookup at h
  cases hf : (List.range bt.elPerBkt).find? (fun k => bt.h (bt.basis d + k) == d) with
  | none => simp [hf] at h
  | some k =>
    simp only [hf, Option.map_some', Option.some.injEq] at h
    subst h
    obtain ⟨hk, hp⟩ := find?_range_some hf
    exact ⟨by simpa using hp, by omega, by omega⟩

theorem shfsBtableLookup_none {bt : Btable} {d : Nat} (h : shfsBtableLookup bt d = none) :
    ∀ k < bt.elPerBkt, bt.h (bt.basis d + k) ≠ d := by
  unfold shfsBtableLookup at h
  rw [Option.map_eq_none'] at h
  intro k hk
  simpa using find?_range_none h k hk

theorem shfsBtableAddentry_some {bt bt' : Btable} {d i : Nat}
    (h : shfsBtableAddentry bt d = some (i, bt')) :
    bt.h i = 0 ∧ bt.basis d ≤ i ∧ i < bt.basis d + bt.elPerBkt ∧
      bt' = { bt with h := Function.update bt.h i d } := by
  unfold shfsBtableAddentry at h
  cases hf : (List.range bt.elPerBkt).find? (fun k => bt.h (bt.basis d + k) == 0) with
  | none => simp [hf] at h
  | some k =>
    simp only [hf, Option.map_some', Option.some.injEq, Prod.mk.injEq] at h
    obtain ⟨rfl, rfl⟩ := h
    obtain ⟨hk, hp⟩ := find?_range_some hf
    exact ⟨by simpa using hp, by omega, by omega, rfl⟩

theorem shfsBtableAddentry_none {bt : Btable} {d : Nat} (h : shfsBtableAddentry bt d = none) :
    ∀ k < bt.elPerBkt, bt.h (bt.basis d + k) ≠ 0 := by
  unfold shfsBtableAddentry at h
  rw [Option.map_eq_none'] at h
  intro k hk
  simpa using find?_range_none h k hk

theorem shfsBtableRmentry_of_some {bt : Btable} {d i : Nat} (h : shfsBtableLookup bt d = some i) :
    shfsBtableRmentry bt d = { bt with h := Function.update bt.h i 0 } := by
  simp [shfsBtableRmentry, h]

/-- `lookup(d)` finds slot `i` of `bucket(d)` when `i` holds `d` and no earlier slot of the
    bucket does. -/
theorem shfsBtableLookup_erste {bt : Btable} {d i : Nat} (hd : bt.h i = d) (h1 : bt.basis d ≤ i)
    (h2 : i < bt.basis d + bt.elPerBkt) (hv : ∀ j, bt.basis d ≤ j → j < i → bt.h j ≠ d) :
    shfsBtableLookup bt d = some i := by
  unfold shfsBtableLookup
  rw [Option.map_eq_some']
  refine ⟨i - bt.basis d, List.find?_range_eq_some.mpr ⟨?_, List.mem_range.mpr (by omega),
    fun k hk => ?_⟩, Nat.add_sub_cancel' h1⟩
  · simp only [Nat.add_sub_cancel' h1, hd, beq_self_eq_true]
  · simpa using hv _ (Nat.le_add_right _ _) (by omega)

/-- After `add_entry(h)` on a table where `lookup(h)` finds nothing, `lookup(h)` finds the slot
    `add_entry` took. -/
theorem shfsBtableLookup_addentry {bt bt' : Btable} {d b : Nat} (hl : shfsBtableLookup bt d = none)
    (ha : shfsBtableAddentry bt d = some (b, bt')) : shfsBtableLookup bt' d = some b := by
  obtain ⟨-, h1, h2, rfl⟩ := shfsBtableAddentry_some ha
  refine shfsBtableLookup_erste (Function.update_same _ _ _) h1 h2
    fun j (hj1 : bt.basis d ≤ j) hj2 => ?_
  show Function.update bt.h b d j ≠ d
  rw [Function.update_noteq (by omega), ← Nat.add_sub_cancel' hj1]
  exact shfsBtableLookup_none hl _ (by omega)

@[simp] theorem shfsBtableFeed_h (bt : Btable) (i d : Nat) :
    (shfsBtableFeed bt i d).h = Function.update bt.h i d := rfl

@[simp] theorem shfsBtableFeed_bentry (bt : Btable) (i d : Nat) :
    (shfsBtableFeed bt i d).bentry = bt.bentry := rfl

@[simp] theorem Btable.mem_belegte {bt : Btable} {i : Nat} :
    i ∈ bt.belegte ↔ i < bt.nbEntries ∧ bt.h i ≠ 0 := by
  simp [Btable.belegte]

end Minicache.Shfs
