/-
  File:      Minicache/Shfs/Addfile.lean
  Subject:   `actn_addfile`, with its hashing loop, its copy loop and every exit of its
             `goto err_*` chain.

  The world `actn_addfile` talks to is an `AddfileUmwelt`: the file behind the path (its bytes,
  or nothing when `open`/`fstat` fails or it is not a regular file), the buffer `malloc` hands
  out (or none), and the outcome of each call that can fail and each test of `cancel`, by loop
  iteration. The digest primitive `mhash(MHASH_SHA256)`, truncated to `hlen` bytes, is the
  parameter `H`.

  The exits, in the order of the source:
  * before the container is reserved (`err_close_fd`): nothing changes;
  * after it is reserved and before the entry is committed (`err_mhash_deinit`,
    `err_free_tmp_chk`, `err_release_container`): the container is released;
  * after the entry is committed (second `lseek`, copy loop): the container is released too, while
    the entry stays -- `actnAddfile_faelle` says exactly what each exit leaves.
-/
import Minicache.Shfs.Vol

namespace Minicache.Shfs

/-! ## 1. The world of one call -/

/-- What the environment answers one `actn_addfile`. `lies₁ c`, `lies₂ c`: the `read` of iteration
    `c` of the hashing and of the copy loop succeeds; `schreib c`: the `sync_write_chunk` of
    iteration `c` of the copy loop; `abbruch₁ c`, `abbruch₂ c`: `cancel` is set when iteration `c`
    tests it. -/
structure AddfileUmwelt where
  datei : Option (List UInt8)
  tmpChk : Option Chunk
  mhashInit : Bool
  lseek₁ : Bool
  lies₁ : Nat → Bool
  abbruch₁ : Nat → Bool
  lseek₂ : Bool
  lies₂ : Nat → Bool
  schreib : Nat → Bool
  abbruch₂ : Nat → Bool
  zeit : Nat

/-- The world in which the path names the regular file `f`, `malloc` hands out `buf`, every call
    succeeds and `cancel` is never set. -/
def glatteUmwelt (f : List UInt8) (buf : Chunk) (zeit : Nat) : AddfileUmwelt :=
  ⟨some f, some buf, true, true, fun _ => true, fun _ => false, true, fun _ => true, fun _ => true,
   fun _ => false, zeit⟩

/-- `read(fd, buf, rlen)` on the regular file `f` at offset `pos`: the buffer with the bytes
    read at its start, and the new offset. -/
def leseDatei (f : List UInt8) (pos rlen : Nat) (buf : Chunk) : Chunk × Nat :=
  let n := min rlen (f.length - pos)
  ({ buf with bytes := fun k => if k < n then f.getD (pos + k) 0 else buf.bytes k }, pos + n)

/-- The first `n` bytes of a buffer, as `mhash(td, buf, n)` reads them. -/
def Chunk.anfang (buf : Chunk) (n : Nat) : List UInt8 := (List.range n).map buf.bytes

/-! ## 2. The two loops -/

/-- The hashing loop, iterations `c, c + 1, …` (`n` of them) of `for (c = 0; c < csize; c++)`:
    the buffer and the bytes handed to `mhash`, or the code the loop leaves with. -/
def hashSchleife (u : AddfileUmwelt) (f : List UInt8) (chunksize csize : Nat) :
    Nat → Nat → Nat → Chunk → List UInt8 → Except Int (Chunk × List UInt8)
  | 0, _, _, buf, fed => .ok (buf, fed)
  | n + 1, c, pos, buf, fed =>
    let rlen := if c = csize - 1 then f.length % chunksize else chunksize
    if u.lies₁ c = false then .error (-1) else
    let (buf, pos) := leseDatei f pos rlen buf
    if u.abbruch₁ c then .error (-2) else
    hashSchleife u f chunksize csize n (c + 1) pos buf (fed ++ buf.anfang rlen)

/-- The copy loop `while (left)` of `actn_addfile`, from its `left`, chunk counter `c` and file
    offset `pos`: the members afterwards, or the code it leaves with and the members then. Every
    pass lowers `left` by at least one once `chunksize ≥ 1`, so `fuel = left` passes reach
    `left = 0`; the `0` case is the loop's exit. -/
def kopierSchleife (u : AddfileUmwelt) (volsize : Nat) (f : List UInt8) (chunksize cchk : Nat) :
    Nat → Nat → Nat → Nat → Chunk → Platte → Except (Int × Platte) Platte
  | 0, _, _, _, _, p => .ok p
  | fuel + 1, left, c, pos, buf, p =>
    if left = 0 then .ok p else
    let (rlen, left', buf) :=
      if left > chunksize then (chunksize, left - chunksize, buf)
      else (left, 0, Chunk.null)
    if u.lies₂ c = false then .error (-1, p) else
    let (buf, pos) := leseDatei f pos rlen buf
    match syncWriteChunk volsize p (cchk + c) buf (u.schreib c) with
    | none => .error (-1, p)
    | some p =>
      if u.abbruch₂ c then .error (-2, p) else
      kopierSchleife u volsize f chunksize cchk fuel left' (c + 1) pos buf p

/-! ## 3. actn_addfile -/

variable (D : ShfsDefs) (H : List UInt8 → Nat)

/-- The record `actn_addfile` fills in for a new object: digest, container, `offset = 0`,
    `len = fsize`, creation time, no flags, the MIME type and the name (`-n`, else the path's
    basename), each cut to its field as `strncpy` does, and no encoding. -/
def neuerHentry (j : Token) (zeit fhash cchk fsize : Nat) : Hentry :=
  { hash := fhash, chunk := cchk, offset := 0, len := fsize, tsCreation := zeit, flags := 0,
    mime := ((j.optstr0.getD "").take D.mimeSize),
    name := ((j.optstr1.getD (basename j.path)).take D.nameSize), encoding := "" }

/-- `shfs_alist_register(al, cchk, csize)`, its result ignored. -/
def Vol.reservieren (v : Vol) (cchk csize : Nat) : Vol :=
  { v with al := (shfsAlistRegister v.al cchk csize).getD v.al }

/-- `err_release_container`: `shfs_alist_unregister(al, cchk, csize)`, its result ignored. -/
def freigeben (v : Vol) (cchk csize : Nat) : Vol :=
  { v with al := (shfsAlistUnregister v.al cchk csize).getD v.al }

/-- The commit: the entry goes into the bucket table and, through its bentry, into the hash-table
    chunk cache, whose chunk is marked modified. -/
def eintragen (v : Vol) (bt : Btable) (b : Nat) (e : Hentry) : Vol :=
  (({ v with bt := bt } : Vol).storeHentry b e).markModified (bt.bentry b).hentryHtchunk

/-- From `malloc` to `shfs_btable_addentry`: the buffer, the digest, the slot it takes and the
    bucket table with it, or the code of the first failure. `shfs_vol` is not touched. -/
def addfileDigest (u : AddfileUmwelt) (f : List UInt8) (chunksize csize : Nat) (bt : Btable) :
    Except Int (Chunk × Nat × Nat × Btable) :=
  match u.tmpChk with
  | none => .error (-1)
  | some buf =>
  if u.mhashInit = false ∨ u.lseek₁ = false then .error (-1) else
  match hashSchleife u f chunksize csize csize 0 0 buf [] with
  | .error r => .error r
  | .ok (buf, fed) =>
  match shfsBtableLookup bt (H fed) with
  | some _ => .error (-1)
  | none =>
  match shfsBtableAddentry bt (H fed) with
  | none => .error (-1)
  | some (b, bt) => .ok (buf, H fed, b, bt)

/-- `actn_addfile(j)`: the return code, the members and `shfs_vol` afterwards. Every failure after
    the reservation goes through `err_release_container` with `shfs_vol` as it is then. -/
def actnAddfile (u : AddfileUmwelt) (j : Token) (p : Platte) (v : Vol) : Int × Platte × Vol :=
  match u.datei with
  | none => (-1, p, v)
  | some f =>
    let fsize := f.length
    let csize := divRoundUp fsize v.chunksize
    let cchk := shfsAlistFindFree v.al csize
    if cchk = 0 ∨ cchk ≥ v.volsize then (-1, p, v) else
    let v := v.reservieren cchk csize
    match addfileDigest H u f v.chunksize csize v.bt with
    | .error r => (r, p, freigeben v cchk csize)
    | .ok (buf, d, b, bt) =>
    let v := eintragen v bt b (neuerHentry D j u.zeit d cchk fsize)
    if u.lseek₂ = false then (-1, p, freigeben v cchk csize) else
    match kopierSchleife u v.volsize f v.chunksize cchk fsize fsize 0 0 buf p with
    | .error (r, p) => (r, p, freigeben v cchk csize)
    | .ok p => (0, p, v)

end Minicache.Shfs
