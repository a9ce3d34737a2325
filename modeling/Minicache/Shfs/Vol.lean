/-
  File:      Minicache/Shfs/Vol.lean
  Subject:   The mounted volume `shfs_vol`, the logical volume on the members, chunk I/O, and
             the stores into the hash-table chunk cache.

  * `Platte` -- what the members hold: the two headers and the `volsize + 1` chunks of the
    logical volume the stripe mapper presents;
  * `syncReadChunk`, `syncWriteChunk` -- chunk I/O (not in src/), from the spec: a chunk past
    `volsize` is refused, and a member may report an I/O error;
  * `Vol` -- `static struct vol_info shfs_vol`, flat, as the actions read and write it;
  * `Vol.hentry`, `Vol.storeHentry` -- the `struct shfs_hentry *` every action forms from a bentry,
    `htable_chunk_cache[bentry->hentry_htchunk] + bentry->hentry_htoffset`;
  * `bentrySetflags`, `bentryClearflags` -- one definition `bentryFlags` with the bit operation
    as parameter.
-/
import Minicache.Shfs.Alist
import Minicache.Shfs.Btable

namespace Minicache.Shfs

/-! ## 1. The logical volume -/

/-- What the members of a volume hold: the common header (chunk 0), the config header (chunk 1)
    and the chunks of the logical volume. The two headers are fields of their own, apart from
    `chunk 0` and `chunk 1`: the mount reads them there, and a chunk write leaves them as they
    were. -/
structure Platte where
  hdrCommon : HdrCommon
  hdrConfig : HdrConfig
  chunk : Nat → Chunk

/-- Modelled from the spec: `sync_read_chunk(&shfs_vol.s, start, 1, buf)` (not in src/). It
    "must validate start + count ≤ volsize + 1"; `ok` is whether the members answer without an
    I/O error. -/
def syncReadChunk (volsize : Nat) (p : Platte) (start : Nat) (ok : Bool) : Option Chunk :=
  if start + 1 ≤ volsize + 1 ∧ ok = true then some (p.chunk start) else none

/-- Modelled from the spec: `sync_write_chunk(&shfs_vol.s, start, 1, buf)` (not in src/). -/
def syncWriteChunk (volsize : Nat) (p : Platte) (start : Nat) (buf : Chunk) (ok : Bool) :
    Option Platte :=
  if start + 1 ≤ volsize + 1 ∧ ok = true then
    some { p with chunk := Function.update p.chunk start buf }
  else none

theorem syncReadChunk_some {volsize : Nat} {p : Platte} {start : Nat} {ok : Bool} {c : Chunk}
    (h : syncReadChunk volsize p start ok = some c) : start ≤ volsize ∧ c = p.chunk start := by
  unfold syncReadChunk at h
  split at h
  · exact ⟨by omega, (Option.some.inj h).symm⟩
  · cases h

theorem syncWriteChunk_some {volsize : Nat} {p p' : Platte} {start : Nat} {buf : Chunk} {ok : Bool}
    (h : syncWriteChunk volsize p start buf ok = some p') :
    start ≤ volsize ∧ p' = { p with chunk := Function.update p.chunk start buf } := by
  unfold syncWriteChunk at h
  split at h
  · exact ⟨by omega, (Option.some.inj h).symm⟩
  · cases h

/-! ## 2. The mounted volume -/

/-- `shfs_vol` once `mount_shfs` has returned: the geometry and configuration it read, the
    bucket table `bt`, the allocator `al`, the hash-table chunk cache with its `CCS_MODIFIED`
    bits, and the default bentry. -/
structure Vol where
  chunksize : Nat
  volsize : Nat
  htableRef : Nat
  htableBakRef : Nat
  htableNbBuckets : Nat
  htableNbEntriesPerBucket : Nat
  htableNbEntries : Nat
  htableNbEntriesPerChunk : Nat
  htableLen : Nat
  hlen : Nat
  allocator : Allocator
  bt : Btable
  al : Alist
  htableChunkCache : Nat → Chunk
  htableChunkCacheState : Nat → Bool
  defBentry : Option Nat

/-- The record bentry `i` points at: `htable_chunk_cache[bentry->hentry_htchunk] +
    bentry->hentry_htoffset`. -/
def Vol.hentry (v : Vol) (i : Nat) : Hentry :=
  (v.htableChunkCache (v.bt.bentry i).hentryHtchunk).hentry (v.bt.bentry i).hentryHtoffset

/-- A store of the record `e` through that pointer. -/
def Vol.storeHentry (v : Vol) (i : Nat) (e : Hentry) : Vol :=
  let b := v.bt.bentry i
  { v with
    htableChunkCache := Function.update v.htableChunkCache b.hentryHtchunk
      ((v.htableChunkCache b.hentryHtchunk).setHentry b.hentryHtoffset e) }

/-- `shfs_vol.htable_chunk_cache_state[k] |= CCS_MODIFIED`. -/
def Vol.markModified (v : Vol) (k : Nat) : Vol :=
  { v with htableChunkCacheState := Function.update v.htableChunkCacheState k true }

@[simp] theorem Vol.storeHentry_bt (v : Vol) (i : Nat) (e : Hentry) :
    (v.storeHentry i e).bt = v.bt := rfl
@[simp] theorem Vol.storeHentry_al (v : Vol) (i : Nat) (e : Hentry) :
    (v.storeHentry i e).al = v.al := rfl
@[simp] theorem Vol.storeHentry_state (v : Vol) (i : Nat) (e : Hentry) :
    (v.storeHentry i e).htableChunkCacheState = v.htableChunkCacheState := rfl
@[simp] theorem Vol.storeHentry_defBentry (v : Vol) (i : Nat) (e : Hentry) :
    (v.storeHentry i e).defBentry = v.defBentry := rfl
@[simp] theorem Vol.markModified_bt (v : Vol) (k : Nat) : (v.markModified k).bt = v.bt := rfl
@[simp] theorem Vol.markModified_al (v : Vol) (k : Nat) : (v.markModified k).al = v.al := rfl
@[simp] theorem Vol.markModified_cache (v : Vol) (k : Nat) :
    (v.markModified k).htableChunkCache = v.htableChunkCache := rfl
@[simp] theorem Vol.markModified_defBentry (v : Vol) (k : Nat) :
    (v.markModified k).defBentry = v.defBentry := rfl
@[simp] theorem Vol.markModified_state (v : Vol) (k : Nat) :
    (v.markModified k).htableChunkCacheState = Function.update v.htableChunkCacheState k true := rfl

/-- A store through bentry `i` is read back through every bentry at the same place. -/
theorem Vol.hentry_storeHentry_eq (v : Vol) {i j : Nat} (e : Hentry)
    (h : v.bt.bentry j = v.bt.bentry i) : (v.storeHentry i e).hentry j = e := by
  simp [Vol.hentry, Vol.storeHentry, h]

@[simp] theorem Vol.hentry_storeHentry_self (v : Vol) (i : Nat) (e : Hentry) :
    (v.storeHentry i e).hentry i = e := v.hentry_storeHentry_eq e rfl

/-- A store through bentry `i` leaves the record of a bentry at another place alone. -/
theorem Vol.hentry_storeHentry_ne (v : Vol) {i j : Nat} (e : Hentry)
    (h : v.bt.bentry j ≠ v.bt.bentry i) : (v.storeHentry i e).hentry j = v.hentry j := by
  simp only [Vol.hentry, Vol.storeHentry]
  by_cases hc : (v.bt.bentry j).hentryHtchunk = (v.bt.bentry i).hentryHtchunk
  · rw [hc, Function.update_same, Chunk.setHentry_hentry_ne]
    exact fun ho => h (by cases hb : v.bt.bentry j; cases v.bt.bentry i; simp_all)
  · rw [Function.update_noteq hc]

@[simp] theorem Vol.hentry_markModified (v : Vol) (k i : Nat) :
    (v.markModified k).hentry i = v.hentry i := rfl

/-! ## 3. Flags -/

/-- `bentry_setflags` and `bentry_clearflags`: change `hentry->flags` by `op` and mark the chunk
    of the record modified. -/
def bentryFlags (op : UInt8 → UInt8 → UInt8) (v : Vol) (i : Nat) (flags : UInt8) : Vol :=
  (v.storeHentry i { v.hentry i with flags := op (v.hentry i).flags flags }).markModified
    (v.bt.bentry i).hentryHtchunk

/-- `bentry_setflags(bentry, flags)`: `hentry->flags |= flags`. -/
def bentrySetflags (v : Vol) (i : Nat) (flags : UInt8) : Vol :=
  bentryFlags (· ||| ·) v i flags

/-- `bentry_clearflags(bentry, flags)`: `hentry->flags &= ~(flags)`. -/
def bentryClearflags (v : Vol) (i : Nat) (flags : UInt8) : Vol :=
  bentryFlags (fun x f => x &&& ~~~f) v i flags

@[simp] theorem bentryFlags_bt (op : UInt8 → UInt8 → UInt8) (v : Vol) (i : Nat) (f : UInt8) :
    (bentryFlags op v i f).bt = v.bt := rfl
@[simp] theorem bentryFlags_al (op : UInt8 → UInt8 → UInt8) (v : Vol) (i : Nat) (f : UInt8) :
    (bentryFlags op v i f).al = v.al := rfl
@[simp] theorem bentryFlags_defBentry (op : UInt8 → UInt8 → UInt8) (v : Vol) (i : Nat) (f : UInt8) :
    (bentryFlags op v i f).defBentry = v.defBentry := rfl

@[simp] theorem Vol.hentry_mit_defBentry (w : Vol) (d : Option Nat) (i : Nat) :
    ({ w with defBentry := d } : Vol).hentry i = w.hentry i := rfl

/-- **A flag change touches the flags of its own record only.** -/
theorem bentryFlags_hentry (op : UInt8 → UInt8 → UInt8) (v : Vol) (i j : Nat) (f : UInt8) :
    (bentryFlags op v i f).hentry j =
      if v.bt.bentry j = v.bt.bentry i then { v.hentry i with flags := op (v.hentry i).flags f }
      else v.hentry j := by
  simp only [bentryFlags, Vol.hentry_markModified]
  split
  · exact Vol.hentry_storeHentry_eq v _ ‹_›
  · exact Vol.hentry_storeHentry_ne v _ ‹_›

end Minicache.Shfs
