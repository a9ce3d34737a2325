/-
  File:      Minicache/Shfs/Aktionen.lean
  Subject:   The actions other than add: `actn_rmfile`, `actn_catfile`, `actn_cleardefault`,
             `actn_setdefault`, `actn_ls`, `actn_info`.

  `actn_catfile` writes to stdout once per pass of its loop; its output is the list of those
  `write` calls, so that the number of passes and what each pass read are visible. Its
  `chunksize - off` is computed in `uint64_t` (`u64sub`).

  `actn_info` tests the uninitialised pointer `hdr_config` where it means the buffers it has just
  allocated; what that test answers is part of its world (`InfoUmwelt.hdrConfigNull`).
-/
import Minicache.Shfs.Vol

namespace Minicache.Shfs

variable (D : ShfsDefs)

/-! ## 1. actn_rmfile -/

/-- `actn_rmfile(token)`: parse the digest, find its entry, release its container, clear the
    bucket-table slot and the record's digest, and mark the record's chunk modified. -/
def actnRmfile (token : Token) (v : Vol) : Int × Vol :=
  match hashParse token.path v.hlen with
  | none => (-1, v)
  | some h =>
  match shfsBtableLookup v.bt h with
  | none => (-1, v)
  | some b =>
  let e := v.hentry b
  match shfsAlistUnregister v.al e.chunk (divRoundUp (e.len + e.offset) v.chunksize) with
  | none => (-1, v)
  | some al =>
  let v := ({ v with al := al, bt := shfsBtableRmentry v.bt h } : Vol).storeHentry b
    { e with hash := 0 }
  (0, v.markModified (v.bt.bentry b).hentryHtchunk)

/-! ## 2. actn_catfile -/

/-- What the environment answers one `actn_catfile`: the buffer `malloc` hands out (or none), and
    whether the chunk read and the `write` to stdout of pass `k` succeed. A `write` that succeeds
    writes all its bytes: the source tests only `write(...) < 0`, and a short count is not
    modelled. -/
structure CatUmwelt where
  buf : Option Chunk
  lies : Nat → Bool
  schreib : Nat → Bool

/-- `a - b` in `uint64_t`. -/
def u64sub (a b : Nat) : Nat := (a + (2 ^ 64 - b % 2 ^ 64)) % 2 ^ 64

theorem u64sub_of_le {a b : Nat} (h : b ≤ a) (ha : a < 2 ^ 64) : u64sub a b = a - b := by
  unfold u64sub
  rw [Nat.mod_eq_of_lt (by omega : b < 2 ^ 64)]
  omega

/-- The loop `while (left)` of `actn_catfile` from pass `k`, at chunk `c` and offset `off`: the
    return code and the `write` calls made. `rlen = min(chunksize - off, left)` is at least one
    from the second pass on once `chunksize ≥ 1`, so `fuel = len + 1` passes reach `left = 0`;
    the `0` case is the loop's exit. -/
def catSchleife (u : CatUmwelt) (volsize chunksize : Nat) (p : Platte) :
    Nat → Nat → Nat → Nat → Nat → List (List UInt8) → Int × List (List UInt8)
  | 0, _, _, _, _, out => (0, out)
  | fuel + 1, k, c, off, left, out =>
    if left = 0 then (0, out) else
    match syncReadChunk volsize p c (u.lies k) with
    | none => (-1, out)
    | some buf =>
    let rlen := min (u64sub chunksize off) left
    if u.schreib k = false then (-1, out) else
    catSchleife u volsize chunksize p fuel (k + 1) (c + 1) 0 (left - rlen)
      (out ++ [(List.range rlen).map fun i => buf.bytes (off + i)])

/-- `actn_catfile(token)`: the return code and the `write` calls to stdout. -/
def actnCatfile (u : CatUmwelt) (token : Token) (p : Platte) (v : Vol) : Int × List (List UInt8) :=
  match u.buf with
  | none => (-1, [])
  | some _ =>
  match hashParse token.path v.hlen with
  | none => (-1, [])
  | some h =>
  match shfsBtableLookup v.bt h with
  | none => (-1, [])
  | some b =>
  let e := v.hentry b
  catSchleife u v.volsize v.chunksize p (e.len + 1) 0 e.chunk e.offset e.len []

/-! ## 3. Default object -/

/-- `actn_cleardefault`: drop the DEFAULT flag of the default entry, if there is one, and forget
    it. Always `0`. -/
def actnCleardefault (v : Vol) : Int × Vol :=
  match v.defBentry with
  | none => (0, v)
  | some b => (0, { bentryClearflags v b D.eflagDefault with defBentry := none })

/-- `actn_setdefault(token)`: parse, find the entry, clear the previous default, flag this one. -/
def actnSetdefault (token : Token) (v : Vol) : Int × Vol :=
  match hashParse token.path v.hlen with
  | none => (-1, v)
  | some h =>
  match shfsBtableLookup v.bt h with
  | none => (-1, v)
  | some b =>
  (0, { bentrySetflags (actnCleardefault D v).2 b D.eflagDefault with defBentry := some b })

/-! ## 4. actn_ls and actn_info -/

/-- One row of `actn_ls`: digest, container start, container size in chunks, the four flag
    characters, MIME type, creation time and name. -/
structure LsZeile where
  hash : Nat
  chunk : Nat
  chunks : Nat
  flags : List Char
  mime : String
  tsCreation : Nat
  name : String
  deriving DecidableEq, Repr

/-- `actn_ls`: a row for each non-empty slot, in the order of `foreach_htable_el`. -/
def actnLs (v : Vol) : Int × List LsZeile :=
  (0, v.bt.belegte.map fun i =>
    let e := v.hentry i
    { hash := v.bt.h i, chunk := e.chunk, chunks := divRoundUp (e.len + e.offset) v.chunksize,
      flags := [if e.flags &&& D.eflagDefault != 0 then 'D' else '-', '-', '-',
                if e.flags &&& D.eflagHidden != 0 then 'H' else '-'],
      mime := e.mime, tsCreation := e.tsCreation, name := e.name })

/-- What the environment answers one `actn_info`: whether the uninitialised `hdr_config` it tests
    twice reads as `NULL`, and whether the `lseek` and `read` of member 0 and the read of chunk 1
    succeed. -/
structure InfoUmwelt where
  hdrConfigNull : Bool
  lseek : Bool
  read : Bool
  lies1 : Bool

/-- `actn_info`: the return code and the two headers `print_shfs_hdr_summary` prints. -/
def actnInfo (u : InfoUmwelt) (p : Platte) (v : Vol) : Int × Option (HdrCommon × HdrConfig) :=
  if u.hdrConfigNull then (-1, none)
  else if u.lseek = false ∨ u.read = false then (-1, none)
  else match syncReadChunk v.volsize p 1 u.lies1 with
    | none => (-1, none)
    | some _ => (0, some (p.hdrCommon, p.hdrConfig))

end Minicache.Shfs
