/-
  File:      Minicache/Shfs/Format.lean
  Subject:   The vocabulary of shfs_admin.c: digests, hash-table entries, chunks, the two
             on-disk headers, and the macros of shfs_defs.h the tool uses.

  shfs_defs.h is not in src/. What the tool takes from it is taken here as it is used:

  * the sizes and flag bits it declares are the fields of `ShfsDefs`; what the code relies on
    about them (a non-empty `struct shfs_hentry`, a non-zero DEFAULT bit) is a proof field;
  * the layout macros (`SHFS_HTABLE_CHUNK_NO`, `SHFS_HTABLE_ENTRY_OFFSET`, …) follow the spec's
    row-major layout, `DIV_ROUND_UP` the spec's ceiling.

  A digest is the number its `hlen` bytes spell; the all-zero digest `0` marks an empty slot.
  A chunk is seen two ways (`Chunk`): as the bytes the copy loop writes and `actn_catfile` reads,
  and as the `struct shfs_hentry` records `load_vol_htable` finds at each byte offset.
-/
import Mathlib.Algebra.Group.Nat.Basic
import Mathlib.Logic.Function.Basic

namespace Minicache.Shfs

/-! ## 1. Constants of shfs_defs.h -/

/-- The constants shfs_admin.c takes from shfs_defs.h, which is not in src/. -/
structure ShfsDefs where
  /-- `sizeof(struct shfs_hentry)`. -/
  hentrySize : Nat
  /-- `sizeof(hentry->mime)`, `sizeof(hentry->name)`. -/
  mimeSize : Nat
  nameSize : Nat
  /-- `SHFS_EFLAG_DEFAULT`, `SHFS_EFLAG_HIDDEN`: bits of `hentry->flags`. -/
  eflagDefault : UInt8
  eflagHidden : UInt8
  hentrySize_pos : 0 < hentrySize
  eflagDefault_ne : eflagDefault ≠ 0

/-- `DIV_ROUND_UP(n, d)`: the spec's `ceil(n / d)`. -/
def divRoundUp (n d : Nat) : Nat := (n + d - 1) / d

/-- `k` whole chunks of size `d` hold `n` bytes exactly when `k` is at least `ceil(n / d)`. -/
theorem divRoundUp_le_iff {n d k : Nat} (hd : 0 < d) : divRoundUp n d ≤ k ↔ n ≤ k * d := by
  unfold divRoundUp
  rw [← Nat.lt_succ_iff, Nat.div_lt_iff_lt_mul hd, Nat.succ_mul]
  omega

theorem divRoundUp_eq_zero_iff {n d : Nat} (hd : 0 < d) : divRoundUp n d = 0 ↔ n = 0 := by
  have := divRoundUp_le_iff (n := n) (k := 0) hd
  omega

@[simp] theorem divRoundUp_zero (d : Nat) : divRoundUp 0 d = 0 := by
  unfold divRoundUp
  rcases Nat.eq_zero_or_pos d with rfl | hd
  · rfl
  · exact Nat.div_eq_of_lt (by omega)

theorem lt_divRoundUp_iff {n d k : Nat} (hd : 0 < d) : k < divRoundUp n d ↔ k * d < n := by
  rw [← Nat.not_le, divRoundUp_le_iff hd, Nat.not_le]

/-! ## 2. Hash-table entries -/

/-- `struct shfs_hentry`: one slot of the on-disk hash table. `hash` is the digest's value, `0`
    for an empty slot. -/
structure Hentry where
  hash : Nat
  chunk : Nat
  offset : Nat
  len : Nat
  tsCreation : Nat
  flags : UInt8
  mime : String
  name : String
  encoding : String
  deriving DecidableEq, Repr

/-- The all-zero record `shfs_mkfs` leaves in every slot. -/
def Hentry.leer : Hentry := ⟨0, 0, 0, 0, 0, 0, "", "", ""⟩

/-- The chunks an entry's payload spans: `DIV_ROUND_UP(offset + len, chunksize)`, as
    `load_vol_alist`, `actn_rmfile` and `actn_ls` compute it. -/
def Hentry.fussabdruck (e : Hentry) (chunksize : Nat) : Nat :=
  divRoundUp (e.len + e.offset) chunksize

/-- `SHFS_HENTRY_ISDEFAULT(hentry)`. -/
def Hentry.isDefault (D : ShfsDefs) (e : Hentry) : Bool := e.flags &&& D.eflagDefault != 0

theorem or_and_self_uint8 (x f : UInt8) : (x ||| f) &&& f = f := by
  apply UInt8.eq_of_toBitVec_eq
  show (x.toBitVec ||| f.toBitVec) &&& f.toBitVec = f.toBitVec
  ext i
  simp only [BitVec.getLsbD_and, BitVec.getLsbD_or, Bool.and_iff_right_iff_imp]
  exact fun h => by simp [h]

theorem and_not_and_self_uint8 (x f : UInt8) : (x &&& ~~~f) &&& f = 0 := by
  apply UInt8.eq_of_toBitVec_eq
  show (x.toBitVec &&& ~~~f.toBitVec) &&& f.toBitVec = 0#8
  ext i
  simp

/-- `bentry_setflags(…, SHFS_EFLAG_DEFAULT)` leaves the entry a default entry. -/
@[simp] theorem isDefault_setDefault (D : ShfsDefs) (e : Hentry) :
    Hentry.isDefault D { e with flags := e.flags ||| D.eflagDefault } = true := by
  simp [Hentry.isDefault, or_and_self_uint8, D.eflagDefault_ne]

/-- `bentry_clearflags(…, SHFS_EFLAG_DEFAULT)` leaves it none. -/
@[simp] theorem isDefault_clearDefault (D : ShfsDefs) (e : Hentry) :
    Hentry.isDefault D { e with flags := e.flags &&& ~~~D.eflagDefault } = false := by
  simp [Hentry.isDefault, and_not_and_self_uint8]

@[simp] theorem isDefault_leer (D : ShfsDefs) : Hentry.leer.isDefault D = false := by
  simp only [Hentry.isDefault, Hentry.leer, bne_eq_false_iff_eq]
  exact UInt8.eq_of_toBitVec_eq BitVec.zero_and

/-! ## 3. Chunks -/

/-- One chunk of the logical volume, or a chunk-sized buffer in memory, as the two kinds of
    access of the tool see it: its bytes, and the `struct shfs_hentry` at each byte offset. The
    two views are independent: the tool reads a hash-table chunk only as records and a
    container chunk only as bytes, and a store through one view leaves the other as it was. -/
structure Chunk where
  bytes : Nat → UInt8
  hentry : Nat → Hentry

/-- An all-zero chunk, as `memset(buf, 0, chunksize)` leaves a buffer: every byte `0`, every
    record the empty one. -/
def Chunk.null : Chunk := ⟨fun _ => 0, fun _ => Hentry.leer⟩

/-- The buffer with the record `e` written at byte offset `o` (a store through `hentry`). -/
def Chunk.setHentry (c : Chunk) (o : Nat) (e : Hentry) : Chunk :=
  { c with hentry := Function.update c.hentry o e }

@[simp] theorem Chunk.setHentry_bytes (c : Chunk) (o : Nat) (e : Hentry) :
    (c.setHentry o e).bytes = c.bytes := rfl

@[simp] theorem Chunk.setHentry_hentry_self (c : Chunk) (o : Nat) (e : Hentry) :
    (c.setHentry o e).hentry o = e := by simp [Chunk.setHentry]

theorem Chunk.setHentry_hentry_ne (c : Chunk) {o o' : Nat} (e : Hentry) (h : o' ≠ o) :
    (c.setHentry o e).hentry o' = c.hentry o' := by simp [Chunk.setHentry, h]

/-! ## 4. Headers -/

/-- The stripe mode of a volume; the header's other codes are `unbekannt`. -/
inductive Stripemode
  | combined
  | independent
  | unbekannt
  deriving DecidableEq, Repr

/-- The allocation policy the config header names. -/
inductive Allocator
  | first
  | best
  | unbekannt
  deriving DecidableEq, Repr

/-- `struct shfs_hdr_common` (chunk 0, on every member), the fields the tool reads. -/
structure HdrCommon where
  volUuid : Nat
  volName : String
  memberStripesize : Nat
  memberStripemode : Stripemode
  volSize : Nat
  memberCount : Nat
  member : List Nat
  memberUuid : Nat
  deriving DecidableEq, Repr

/-- `struct shfs_hdr_config` (chunk 1). -/
structure HdrConfig where
  htableRef : Nat
  htableBakRef : Nat
  htableBucketCount : Nat
  htableEntriesPerBucket : Nat
  hlen : Nat
  allocator : Allocator
  deriving DecidableEq, Repr

/-- `SHFS_CHUNKSIZE(hdr_common)`: the spec's `stripesize × (COMBINED ? 1 : nb_members)`. -/
def shfsChunksize (h : HdrCommon) : Nat :=
  h.memberStripesize * (if h.memberStripemode = .combined then 1 else h.memberCount)

/-- `SHFS_HTABLE_NB_ENTRIES(hdr_config)`. -/
def shfsHtableNbEntries (c : HdrConfig) : Nat := c.htableBucketCount * c.htableEntriesPerBucket

/-- `SHFS_HENTRIES_PER_CHUNK(chunksize)`. -/
def shfsHentriesPerChunk (D : ShfsDefs) (chunksize : Nat) : Nat := chunksize / D.hentrySize

/-- `SHFS_HTABLE_SIZE_CHUNKS(hdr_config, chunksize)`. -/
def shfsHtableSizeChunks (D : ShfsDefs) (c : HdrConfig) (chunksize : Nat) : Nat :=
  divRoundUp (shfsHtableNbEntries c) (shfsHentriesPerChunk D chunksize)

/-- `SHFS_HTABLE_CHUNK_NO(i, entries_per_chunk)`: the hash-table chunk of slot `i`. -/
def shfsHtableChunkNo (i epc : Nat) : Nat := i / epc

/-- `SHFS_HTABLE_ENTRY_OFFSET(i, entries_per_chunk)`: its byte offset in that chunk. -/
def shfsHtableEntryOffset (D : ShfsDefs) (i epc : Nat) : Nat := (i % epc) * D.hentrySize

/-! ## 5. Digest strings -/

/-- The value of one hex digit. -/
def hexDigit (c : Char) : Option Nat :=
  if '0' ≤ c ∧ c ≤ '9' then some (c.toNat - '0'.toNat)
  else if 'a' ≤ c ∧ c ≤ 'f' then some (c.toNat - 'a'.toNat + 10)
  else if 'A' ≤ c ∧ c ≤ 'F' then some (c.toNat - 'A'.toNat + 10)
  else none

/-- Modelled from the spec: `hash_parse(str, h, hlen)` is not in src/. "Parse digest_string as
    hex (reject on malformed)": exactly `2 * hlen` hex digits, read big-endian. -/
def hashParse (s : String) (hlen : Nat) : Option Nat :=
  if s.length = 2 * hlen then
    s.toList.foldlM (fun acc c => (hexDigit c).map (acc * 16 + ·)) 0
  else none

/-- `basename(path)` of libgen, for paths without a trailing `/`. -/
def basename (path : String) : String := (path.splitOn "/").getLastD path

/-! ## 6. Tokens -/

/-- The actions a token can carry (`enum` of shfs_admin.h, not in src/). -/
inductive Action
  | addobj
  | rmobj
  | catobj
  | setdefobj
  | cleardefobj
  | lsobjs
  | showinfo
  deriving DecidableEq, Repr

/-- `struct token` of shfs_admin.h, the fields the actions read: the path or digest string, and
    for an add the MIME type (`optstr0`) and name (`optstr1`) given with `-m` and `-n`. -/
structure Token where
  action : Action
  path : String
  optstr0 : Option String
  optstr1 : Option String
  deriving DecidableEq, Repr

end Minicache.Shfs
