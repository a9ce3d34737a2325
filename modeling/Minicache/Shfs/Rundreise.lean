/-
  File:      Minicache/Shfs/Rundreise.lean
  Subject:   Round trips through the volume: what `actn_addfile` stores, the other actions find
             and give back, in the same process and in the next one.

  The add-then-export round trip meets at the container on disk. One half says what a copy loop
  that went through leaves there: buffer `k` in chunk `cchk + k`, nothing else changed
  (`kopierDurchgaenge_platte`), so the container's payload is the file (`kopierSchleife_inhalt`).
  The other half is the export loop, which writes the payload of a container
  (`catSchleife_datei`). Between them, byte `i` of the buffers is byte `i mod chunksize` of
  buffer `i / chunksize` (`flatMap_anfang_getD`).

  * **`addfile_catfile`** -- after an add of `f` that returns 0, the digest it stored exports
    exactly the bytes of `f`;
  * **`addfile_rmfile`** -- removing that digest gives the bucket table and the allocator back
    as they were before the add;
  * `hashParse_hashUnparse` -- what `hash_unparse` prints, `hash_parse` reads back, cut to
    `hlen` bytes; **`ls_adressiert`** -- so in every reachable state the digest string `actn_ls`
    prints for a row makes `actn_setdefault`, `actn_catfile` and `actn_rmfile` act on that row;
  * `SitzungInv.wiedereinhaengen` -- a remount finds the records and digests the session left
    (the unmount writes only the hash-table regions, `SitzungInv.umount_rahmen`);
    **`addfile_dauerhaft`** -- so an add that returned 0 is exported, byte for byte, by the next
    process.

  NOT here: what other actions between the add and the export may do to the container
  (Bestand.lean shows that a failed add after its commit can overwrite it; Belegung.lean that
  no other step does).
-/
import Mathlib.Data.List.GetD
import Minicache.Shfs.Bestand

namespace Minicache.Shfs

/-! ## 1. What the copy loop leaves on disk -/

section Kopie

variable (u : AddfileUmwelt) (volsize cchk : Nat)

/-- A pass of the copy loop that goes through writes its buffer to chunk `cchk + c`, which lies
    on the volume. -/
theorem kopierDurchgang_ok {c : Nat} {buf : Chunk} {p p₁ : Platte}
    (h : kopierDurchgang u volsize cchk c buf p = .ok p₁) :
    cchk + c ≤ volsize ∧ p₁ = { p with chunk := Function.update p.chunk (cchk + c) buf } := by
  unfold kopierDurchgang at h
  split at h
  · cases h
  split at h
  · cases h
  rename_i hw
  split at h
  · cases h
  cases h
  exact syncWriteChunk_some hw

/-- **The copy loop's passes, when all go through**, from pass `c` with the buffers `bs`: every
    chunk they write lies on the volume, chunk `cchk + c + k` holds buffer `k`, and every other
    chunk is as before. -/
theorem kopierDurchgaenge_platte : ∀ (bs : List Chunk) (c : Nat) {p p' : Platte},
    (bs.enumFrom c).foldlM (fun p (k, b) => kopierDurchgang u volsize cchk k b p) p = .ok p' →
      (∀ k < bs.length, cchk + c + k ≤ volsize) ∧
      ∀ x, p'.chunk x = if cchk + c ≤ x ∧ x < cchk + c + bs.length
        then bs.getD (x - (cchk + c)) Chunk.null else p.chunk x
  | [], _, _, _, h => by
    cases h
    exact ⟨fun k hk => absurd hk (Nat.not_lt_zero _), fun x => by rw [if_neg (by simp)]⟩
  | b :: bs, c, p, p', h => by
    simp only [List.enumFrom_cons, List.foldlM_cons] at h
    obtain ⟨p₁, h₁, h₂⟩ : ∃ p₁, kopierDurchgang u volsize cchk c b p = .ok p₁ ∧
        (bs.enumFrom (c + 1)).foldlM (fun p (k, b) => kopierDurchgang u volsize cchk k b p) p₁ =
          .ok p' := by
      cases hk : kopierDurchgang u volsize cchk c b p with
      | error e => simp only [hk] at h; cases h
      | ok p₁ => simp only [hk] at h; exact ⟨p₁, rfl, h⟩
    obtain ⟨hv, rfl⟩ := kopierDurchgang_ok u volsize cchk h₁
    obtain ⟨hv', hx⟩ := kopierDurchgaenge_platte bs (c + 1) h₂
    refine ⟨fun k hk => ?_, fun x => ?_⟩
    · rcases k with _ | k
      · omega
      · have := hv' k (by simp only [List.length_cons] at hk; omega)
        omega
    · rw [hx x]
      simp only [List.length_cons]
      by_cases h0 : x = cchk + c
      · subst h0
        rw [if_neg (by omega), if_pos (by omega), Nat.sub_self, List.getD_cons_zero]
        exact Function.update_same _ _ _
      by_cases h1 : cchk + (c + 1) ≤ x ∧ x < cchk + (c + 1) + bs.length
      · rw [if_pos h1, if_pos (by omega),
          show x - (cchk + c) = x - (cchk + (c + 1)) + 1 by omega, List.getD_cons_succ]
      · rw [if_neg h1, if_neg (by omega)]
        exact Function.update_noteq h0 _ _

end Kopie

/-- Byte `i` of the first `cs` bytes of the buffers, one buffer after another, is byte `i mod cs`
    of buffer `i / cs`. -/
theorem flatMap_anfang_getD {cs : Nat} (hcs : 0 < cs) : ∀ (bs : List Chunk) {i : Nat},
    i < bs.length * cs →
      (bs.flatMap fun b => b.anfang cs).getD i 0 = (bs.getD (i / cs) Chunk.null).bytes (i % cs)
  | [], i, h => by simp at h
  | b :: bs, i, h => by
    have hlen : (b.anfang cs).length = cs := by simp [Chunk.anfang]
    rw [List.flatMap_cons]
    by_cases hi : i < cs
    · rw [List.getD_append _ _ _ _ (by rw [hlen]; exact hi), Nat.div_eq_of_lt hi, Nat.mod_eq_of_lt hi,
        List.getD_cons_zero]
      simp [Chunk.anfang, hi]
    · rw [List.getD_append_right _ _ _ _ (by omega), Nat.div_eq_sub_div hcs (by omega),
        Nat.mod_eq_sub_mod (by omega), List.getD_cons_succ, hlen]
      exact flatMap_anfang_getD hcs bs (by rw [List.length_cons, Nat.succ_mul] at h; omega)

/-! ## 2. Add, then export -/

@[simp] theorem eintragen_hentry_self (w : Vol) (bt : Btable) (b : Nat) (e : Hentry) :
    (eintragen w bt b e).hentry b = e := by
  simp only [eintragen, Vol.hentry_markModified, Vol.hentry_storeHentry_self]

@[simp] theorem eintragen_hlen (w : Vol) (bt : Btable) (b : Nat) (e : Hentry) :
    (eintragen w bt b e).hlen = w.hlen := rfl

@[simp] theorem Vol.reservieren_hlen (w : Vol) (cchk csize : Nat) :
    (w.reservieren cchk csize).hlen = w.hlen := rfl

variable (D : ShfsDefs) (H : List UInt8 → Nat)

/-- **The copy loop that goes through leaves `f` in the container**: every chunk it writes lies
    on the volume, and payload byte `i` of the container at `cchk` is byte `i` of `f`. -/
theorem kopierSchleife_inhalt {u : AddfileUmwelt} {volsize cs cchk : Nat} {f : List UInt8}
    {buf : Chunk} {p p' : Platte} (hcs0 : 0 < cs)
    (hk : kopierSchleife u volsize f cs cchk f.length f.length 0 0 buf p = .ok p') :
    (∀ k < divRoundUp f.length cs, cchk + k ≤ volsize) ∧
      ∀ i < f.length, nutzByte p' cs cchk i = f.getD i 0 := by
  obtain ⟨bs, hbl, hbs, hbytes⟩ := kopierSchleife_durchgaenge u volsize f cs cchk hcs0 f.length
    f.length 0 0 buf (Nat.zero_add _) ((divRoundUp_le_iff hcs0).mpr (Nat.le_mul_of_pos_right _ hcs0))
  rw [hbs] at hk
  obtain ⟨hvol, hchunk⟩ := kopierDurchgaenge_platte u volsize cchk bs 0 hk
  simp only [Nat.add_zero] at hvol hchunk
  refine ⟨fun k hk => hvol k (hbl ▸ hk), fun i hi => ?_⟩
  have hq : i / cs < bs.length := by
    rw [hbl]
    exact (lt_divRoundUp_iff hcs0).mpr (Nat.lt_of_le_of_lt (Nat.div_mul_le_self i _) hi)
  have hlt : i < bs.length * cs := by
    rw [hbl]; exact Nat.lt_of_lt_of_le hi ((divRoundUp_le_iff hcs0).mp le_rfl)
  rw [nutzByte, hchunk, if_pos ⟨Nat.le_add_right _ _, Nat.add_lt_add_left hq _⟩,
    Nat.add_sub_cancel_left, ← flatMap_anfang_getD hcs0 bs hlt, hbytes,
    List.getD_eq_getElem?_getD, List.getElem?_map, List.getElem?_range (hbl ▸ hlt), Option.map_some',
    Option.getD_some, Nat.zero_add]

/-- **The export loop gives the payload back**: over a container on the volume whose payload
    bytes are those of a non-empty `f`, in a world where every chunk read and every `write`
    succeed, the loop of `actn_catfile` returns 0 and writes the bytes of `f`, in order. -/
theorem catSchleife_datei {uc : CatUmwelt} {volsize cs c : Nat} {q : Platte} {f : List UInt8}
    (hcs : cs < 2 ^ 64) (hcs0 : 0 < cs) (hf0 : 0 < f.length)
    (hvol : ∀ k < divRoundUp f.length cs, c + k ≤ volsize)
    (hnutz : ∀ i < f.length, nutzByte q cs c i = f.getD i 0)
    (hio : ∀ k, uc.lies k = true ∧ uc.schreib k = true) :
    ∃ rest, catSchleife uc volsize cs q (f.length + 1) 0 c 0 f.length [] = (0, rest) ∧
      rest.flatten = f := by
  obtain ⟨rest, h1, -, h3⟩ := catSchleife_lauf uc volsize cs c (p := q) hcs (f.length + 1) 0 0
    f.length [] hcs0 hf0 (Nat.lt_succ_self _) fun k _ hk => ⟨hvol k (by simpa using hk), hio k⟩
  refine ⟨rest, by simpa only [Nat.add_zero, List.nil_append] using h1, ?_⟩
  calc rest.flatten
      = (List.range f.length).map fun i => f.getD (0 + i) 0 := h3.trans (List.map_congr_left
        fun i hi => by simp only [Nat.zero_mul, Nat.zero_add, hnutz i (List.mem_range.mp hi)])
    _ = f := by rw [map_range_getD f (Nat.zero_add _).le, List.drop_zero, List.take_length]

/-- **What `actn_addfile` stored, `actn_catfile` gives back.** After an add of the regular file `f`
    that returns 0, on a volume whose chunk size fits `uint64_t`, the export of every token whose
    digest string parses to the digest `Vol.digest` the add computed, in a world where `malloc`,
    every chunk read and every `write` succeed, returns 0 and writes the bytes of `f`, in order:
    the new entry names the container the copy loop filled, and the export reads its payload. -/
theorem addfile_catfile {u : AddfileUmwelt} {j : Token} {p p' : Platte} {v v' : Vol}
    {f : List UInt8} (hcs : v.chunksize < 2 ^ 64) (hf : u.datei = some f)
    (ha : actnAddfile D H u j p v = (0, p', v')) :
    ∀ (j' : Token) (uc : CatUmwelt), hashParse j'.path v'.hlen = some (v.digest H f) →
      uc.buf.isSome → (∀ k, uc.lies k = true ∧ uc.schreib k = true) →
      (actnCatfile uc j' p' v').1 = 0 ∧ (actnCatfile uc j' p' v').2.flatten = f := by
  obtain ⟨f', buf, d, b, bt, hf', hc0, -, hdg, hk, rfl⟩ := actnAddfile_null D H ha
  obtain rfl : f = f' := (Option.some.inj (hf'.symm.trans hf)).symm
  obtain ⟨hcs0, hf0⟩ := Vol.cchk_pos hc0
  obtain rfl := addfileDigest_digest H hcs0 hdg
  obtain ⟨hl, ha'⟩ := addfileDigest_ok H hdg
  obtain ⟨hvol, hnutz⟩ := kopierSchleife_inhalt hcs0 hk
  intro j' uc hp hbuf hio
  obtain ⟨x, hx⟩ := Option.isSome_iff_exists.mp hbuf
  obtain ⟨rest, hcat, hrest⟩ := catSchleife_datei hcs hcs0 hf0 hvol hnutz hio
  rw [eintragen_hlen, Vol.reservieren_hlen] at hp
  simp only [actnCatfile, hx, eintragen_hlen, Vol.reservieren_hlen, hp, eintragen_bt,
    shfsBtableLookup_addentry hl ha', eintragen_hentry_self, eintragen_volsize,
    eintragen_chunksize, Vol.reservieren_volsize, Vol.reservieren_chunksize, neuerHentry, hcat,
    true_and]
  exact hrest

/-- An add of the one byte `1` on the example volume, then its export: the add computes the
    digest `2`, which the string `02` names. -/
theorem addfile_catfile_vol₀ :
    vol₀.chunksize < 2 ^ 64 ∧ (glatteUmwelt [1] Chunk.null 0).datei = some [1] ∧
    vol₀.digest hash₀ [1] = 2 ∧ hashParse "02" vol₀.hlen = some 2 ∧
    ∃ p' v', actnAddfile defs₀ hash₀ (glatteUmwelt [1] Chunk.null 0)
        ⟨.addobj, "a", none, none⟩ platte₀ vol₀ = (0, p', v') ∧ v'.hlen = vol₀.hlen ∧
      ∀ (j' : Token) (uc : CatUmwelt), hashParse j'.path v'.hlen = some (vol₀.digest hash₀ [1]) →
        uc.buf.isSome → (∀ k, uc.lies k = true ∧ uc.schreib k = true) →
        (actnCatfile uc j' p' v').1 = 0 ∧ (actnCatfile uc j' p' v').2.flatten = [1] := by
  obtain ⟨p', v', h⟩ : ∃ p' v', actnAddfile defs₀ hash₀ (glatteUmwelt [1] Chunk.null 0)
      ⟨.addobj, "a", none, none⟩ platte₀ vol₀ = (0, p', v') := ⟨_, _, rfl⟩
  exact ⟨by decide, rfl, by decide, by decide, p', v', h,
    (congrArg (fun x => x.2.2.hlen) h).symm.trans rfl,
    addfile_catfile defs₀ hash₀ (by decide) rfl h⟩

/-! ## 3. Add, then remove -/

/-- **Removing what an add stored gives the bucket table and the allocator back.** After an add
    of `f` that returns 0, `actn_rmfile` of every token whose digest string parses to the digest
    `Vol.digest` the add computed returns 0 and leaves the bucket table, the allocator and the
    default entry as they were before the add: the slot the add took is empty again and its
    container free. Only the record cache keeps a trace, the record with its digest cleared. -/
theorem addfile_rmfile {u : AddfileUmwelt} {j : Token} {p p' : Platte} {v v' : Vol}
    {f : List UInt8} (hf : u.datei = some f) (ha : actnAddfile D H u j p v = (0, p', v')) :
    ∀ j' : Token, hashParse j'.path v'.hlen = some (v.digest H f) →
      (actnRmfile j' v').1 = 0 ∧ (actnRmfile j' v').2.bt = v.bt ∧
        (actnRmfile j' v').2.al = v.al ∧ (actnRmfile j' v').2.defBentry = v.defBentry := by
  obtain ⟨f', buf, d, b, bt, hf', hc0, -, hdg, -, rfl⟩ := actnAddfile_null D H ha
  obtain rfl : f = f' := (Option.some.inj (hf'.symm.trans hf)).symm
  obtain rfl := addfileDigest_digest H (Vol.cchk_pos hc0).1 hdg
  obtain ⟨hl, ha'⟩ := addfileDigest_ok H hdg
  have hlk := shfsBtableLookup_addentry hl ha'
  obtain ⟨hb0, -, -, rfl⟩ := shfsBtableAddentry_some ha'
  have hfrei : v.al.frei (v.cchk f) (v.csize f) = true := (shfsAlistFindFree_spec hc0).2.2
  have hal : shfsAlistUnregister (v.reservieren (v.cchk f) (v.csize f)).al (v.cchk f)
      (divRoundUp f.length v.chunksize) = some v.al := by
    simp only [Vol.reservieren, shfsAlistRegister_of_frei hfrei, Option.getD_some]
    exact unregister_register hfrei
  intro j' hp
  rw [eintragen_hlen, Vol.reservieren_hlen] at hp
  simp only [actnRmfile, eintragen_hlen, Vol.reservieren_hlen, hp, eintragen_bt, hlk,
    eintragen_hentry_self, eintragen_al, eintragen_chunksize, neuerHentry, Nat.add_zero,
    Vol.reservieren_chunksize, hal, Vol.markModified_bt, Vol.storeHentry_bt, Vol.markModified_al,
    Vol.storeHentry_al, Vol.markModified_defBentry, Vol.storeHentry_defBentry,
    shfsBtableRmentry_of_some hlk, Function.update_idem, true_and]
  refine ⟨?_, rfl⟩
  rw [Function.update_eq_self_iff.mpr hb0.symm]

/-- An add of the one byte `1` on the example volume, then its removal. -/
theorem addfile_rmfile_vol₀ :
    (glatteUmwelt [1] Chunk.null 0).datei = some [1] ∧
    ∃ p' v', actnAddfile defs₀ hash₀ (glatteUmwelt [1] Chunk.null 0)
        ⟨.addobj, "a", none, none⟩ platte₀ vol₀ = (0, p', v') ∧
      ∀ j' : Token, hashParse j'.path v'.hlen = some (vol₀.digest hash₀ [1]) →
        (actnRmfile j' v').1 = 0 ∧ (actnRmfile j' v').2.bt = vol₀.bt ∧
          (actnRmfile j' v').2.al = vol₀.al ∧ (actnRmfile j' v').2.defBentry = vol₀.defBentry := by
  obtain ⟨p', v', h⟩ : ∃ p' v', actnAddfile defs₀ hash₀ (glatteUmwelt [1] Chunk.null 0)
      ⟨.addobj, "a", none, none⟩ platte₀ vol₀ = (0, p', v') := ⟨_, _, rfl⟩
  exact ⟨rfl, p', v', h, addfile_rmfile defs₀ hash₀ rfl h⟩

/-! ## 4. What `actn_ls` prints, the other actions find -/

/-- `h.u8[i]`: byte `i` of an `hlen`-byte digest, the bytes read big-endian as `hash_parse`
    reads them. -/
def digestByte (h hlen i : Nat) : Nat := h / 256 ^ (hlen - 1 - i) % 256

/-- `hash_unparse(h, hlen, out)`: each byte `i < hlen` of the digest as two lower-case hex digits
    (`"%02x"`). -/
def hashUnparse (h hlen : Nat) : String :=
  ⟨(List.range hlen).flatMap fun i =>
    [Nat.digitChar (digestByte h hlen i / 16), Nat.digitChar (digestByte h hlen i % 16)]⟩

theorem hexDigit_digitChar : ∀ n < 16, hexDigit (Nat.digitChar n) = some n := by decide

/-- Parsing the hex digits of the bytes `g i`, `i ∈ is`, after the value `a` appends the bytes,
    most significant first. -/
theorem foldlM_hexDigit (g : Nat → Nat) (hg : ∀ i, g i < 256) : ∀ (is : List Nat) (a : Nat),
    (is.flatMap fun i => [Nat.digitChar (g i / 16), Nat.digitChar (g i % 16)]).foldlM
      (fun acc c => (hexDigit c).map (acc * 16 + ·)) a =
        some (is.foldl (fun a i => a * 256 + g i) a)
  | [], _ => rfl
  | i :: is, a => by
    have h1 := hexDigit_digitChar (g i / 16) (by have := hg i; omega)
    have h2 := hexDigit_digitChar (g i % 16) (Nat.mod_lt _ (by decide))
    simp only [List.flatMap_cons, List.foldlM_append, List.foldlM_cons, List.foldlM_nil, h1, h2,
      Option.map_some', List.foldl_cons, Option.bind_eq_bind, Option.some_bind, Option.pure_def]
    rw [show (a * 16 + g i / 16) * 16 + g i % 16 = a * 256 + g i by omega]
    exact foldlM_hexDigit g hg is _

/-- The bytes of an `n`-byte digest, read big-endian after `a`. -/
theorem foldl_digestByte (h : Nat) : ∀ n a,
    (List.range n).foldl (fun a i => a * 256 + digestByte h n i) a = a * 256 ^ n + h % 256 ^ n
  | 0, a => by simp [Nat.mod_one]
  | n + 1, a => by
    have hs : ∀ i, digestByte h (n + 1) (i + 1) = digestByte h n i := fun i => by
      simp only [digestByte, show n + 1 - 1 - (i + 1) = n - 1 - i by omega]
    rw [List.range_succ_eq_map, List.foldl_cons, List.foldl_map]
    simp only [hs]
    rw [foldl_digestByte h n, digestByte, Nat.add_sub_cancel, Nat.sub_zero, Nat.mod_pow_succ,
      Nat.pow_succ, Nat.add_mul, Nat.mul_assoc, Nat.mul_comm 256, Nat.mul_comm (h / 256 ^ n % 256)]
    omega

/-- **What `hash_unparse` prints, `hash_parse` reads back**: the digest, cut to `hlen` bytes. -/
theorem hashParse_hashUnparse (h hlen : Nat) :
    hashParse (hashUnparse h hlen) hlen = some (h % 256 ^ hlen) := by
  have hl : (hashUnparse h hlen).length = 2 * hlen := by
    have hz : ∀ is : List Nat, (is.flatMap fun i => [Nat.digitChar (digestByte h hlen i / 16),
        Nat.digitChar (digestByte h hlen i % 16)]).length = 2 * is.length := fun is => by
      induction is with
      | nil => rfl
      | cons i is ih =>
        simp only [List.flatMap_cons, List.length_append, ih, List.length_cons, List.length_nil]
        omega
    exact (hz _).trans (by rw [List.length_range])
  rw [hashParse, if_pos hl]
  have := foldlM_hexDigit (digestByte h hlen) (fun _ => Nat.mod_lt _ (by decide)) (List.range hlen) 0
  rw [foldl_digestByte, Nat.zero_mul, Nat.zero_add] at this
  exact this

/-- **Every object `actn_ls` lists is reached by the digest string it prints.** In every reachable
    state with a mounted volume, take a slot `i` that `actn_ls` lists, its digest fitting in `hlen`
    bytes, and a token whose digest string is the one `hash_unparse` prints for it. Then
    `actn_setdefault` returns 0 and makes slot `i` the default; `actn_catfile`, once its buffer is
    allocated, runs its export loop on the record of slot `i`; and `actn_rmfile` either empties
    slot `i` and returns 0, or fails and changes nothing. -/
theorem ls_adressiert {s : System} (h : Erreichbar D H s) {v : Vol} (hv : s.vol = some v)
    {i : Nat} (hi : i ∈ v.bt.belegte) (hb : v.bt.h i < 256 ^ v.hlen) (j : Token)
    (hj : j.path = hashUnparse (v.bt.h i) v.hlen) :
    (actnSetdefault D j v).1 = 0 ∧ (actnSetdefault D j v).2.defBentry = some i ∧
    (∀ (uc : CatUmwelt) (p : Platte), uc.buf.isSome → actnCatfile uc j p v =
      catSchleife uc v.volsize v.chunksize p ((v.hentry i).len + 1) 0 (v.hentry i).chunk
        (v.hentry i).offset (v.hentry i).len []) ∧
    (actnRmfile j v = (-1, v) ∨
      (actnRmfile j v).1 = 0 ∧ (actnRmfile j v).2.bt = { v.bt with h := Function.update v.bt.h i 0 }) := by
  have hs := erreichbar_sysInv D H h
  obtain ⟨p₀, hsi⟩ : ∃ p₀, SitzungInv D p₀ s.platte v := by
    unfold SysInv at hs
    rw [hv] at hs
    exact hs
  have hp : hashParse j.path v.hlen = some (v.bt.h i) := by
    rw [hj, hashParse_hashUnparse, Nat.mod_eq_of_lt hb]
  have hl := hsi.lookup_h (Btable.mem_belegte.mp hi).2
  refine ⟨by simp only [actnSetdefault, hp, hl], by simp only [actnSetdefault, hp, hl],
    fun uc p hbuf => ?_, ?_⟩
  · obtain ⟨x, hx⟩ := Option.isSome_iff_exists.mp hbuf
    simp only [actnCatfile, hx, hp, hl]
  · unfold actnRmfile
    simp only [hp, hl]
    split
    · exact .inl rfl
    · exact .inr ⟨rfl, by simp only [Vol.markModified_bt, Vol.storeHentry_bt,
        shfsBtableRmentry_of_some hl]⟩

/-- The example volume after a mount and an add of the one byte `1`: `actn_ls` lists slot `0`. -/
theorem ls_adressiert_lauf :
    ∃ s rs v, lauf defs₀ hash₀ ⟨platte₀, none⟩ [.mount mountUmwelt₀,
        .addfile ⟨.addobj, "a", none, none⟩ (glatteUmwelt [1] Chunk.null 0)] = some (s, rs) ∧
      s.vol = some v ∧ 0 ∈ v.bt.belegte ∧ v.bt.h 0 < 256 ^ v.hlen ∧
      ∀ j : Token, j.path = hashUnparse (v.bt.h 0) v.hlen →
        (actnSetdefault defs₀ j v).1 = 0 ∧ (actnSetdefault defs₀ j v).2.defBentry = some 0 ∧
        (∀ (uc : CatUmwelt) (p : Platte), uc.buf.isSome → actnCatfile uc j p v =
          catSchleife uc v.volsize v.chunksize p ((v.hentry 0).len + 1) 0 (v.hentry 0).chunk
            (v.hentry 0).offset (v.hentry 0).len []) ∧
        (actnRmfile j v = (-1, v) ∨ (actnRmfile j v).1 = 0 ∧
          (actnRmfile j v).2.bt = { v.bt with h := Function.update v.bt.h 0 0 }) := by
  refine ⟨_, _, _, rfl, rfl, ?_, ?_, ?_⟩
  · decide
  · decide
  · exact ls_adressiert defs₀ hash₀ (@erreichbar_lauf defs₀ hash₀ _ _ _ [.mount mountUmwelt₀,
      .addfile ⟨.addobj, "a", none, none⟩ (glatteUmwelt [1] Chunk.null 0)]
        (.start _ frisch_platte₀) rfl) rfl (by decide) (by decide)

/-! ## 5. From one process to the next -/

section Umhaengen

variable {D} {p₀ p p' : Platte} {v : Vol} {w : Nat → Bool}

/-- **A remount finds what the session left**: after `umount_shfs`, every mount of the members
    starts a session on them with the same geometry, whose records and bucket-table digests are
    those the session ended with. -/
theorem SitzungInv.wiedereinhaengen (hi : SitzungInv D p₀ p v) (hu : umountShfs w v p = some p')
    {u : MountUmwelt} {v' : Vol} (hm : mountShfs D u p' = some v') :
    SitzungInv D p' p' v' ∧ v'.geo = v.geo ∧
      ∀ i < v.htableNbEntries, v'.hentry i = v.hentry i ∧ v'.bt.h i = v.bt.h i := by
  have hi' := (mount_sitzungInv D (hi.platteInv hu) hm).1
  have hg : v'.geo = v.geo := hi'.geo.trans (hi.geoVon_umount hu)
  have hnb : v'.htableNbEntries = v.htableNbEntries := congrArg Geo.htableNbEntries hg
  have hrec : ∀ i < v.htableNbEntries, v'.hentry i = v.hentry i := fun i hin =>
    (mount_hentry (hi.platteInv hu) hm (hnb ▸ hin)).trans (hi.slot_umount hu hin)
  refine ⟨hi', hg, fun i hin => ⟨hrec i hin, ?_⟩⟩
  rw [hi'.digest i, hi.digest i, hnb, if_pos hin, if_pos hin, hrec i hin]

end Umhaengen

/-- **What an add stored survives its process.** In every reachable state with a mounted volume
    whose chunk size fits `uint64_t`: after an add of `f` that returns 0, a successful
    `umount_shfs` and any successful later mount of the members, the export of every token whose
    digest string parses to the digest `Vol.digest` the add computed, in a world where `malloc`,
    every chunk read and every `write` succeed, returns 0 and writes the bytes of `f`. -/
theorem addfile_dauerhaft {s : System} (hr : Erreichbar D H s) {v : Vol} (hv : s.vol = some v)
    {u : AddfileUmwelt} {j : Token} {f : List UInt8} {p' p'' : Platte} {v' v'' : Vol}
    {w : Nat → Bool} {um : MountUmwelt} (hcs : v.chunksize < 2 ^ 64) (hf : u.datei = some f)
    (ha : actnAddfile D H u j s.platte v = (0, p', v')) (hu : umountShfs w v' p' = some p'')
    (hm : mountShfs D um p'' = some v'') :
    ∀ (j' : Token) (uc : CatUmwelt), hashParse j'.path v''.hlen = some (v.digest H f) →
      uc.buf.isSome → (∀ k, uc.lies k = true ∧ uc.schreib k = true) →
      (actnCatfile uc j' p'' v'').1 = 0 ∧ (actnCatfile uc j' p'' v'').2.flatten = f := by
  obtain ⟨p₀, hi⟩ : ∃ p₀, SitzungInv D p₀ s.platte v := by
    have hs := erreichbar_sysInv D H hr
    unfold SysInv at hs
    rw [hv] at hs
    exact hs
  have hi' := hi.addfile ha
  obtain ⟨f', buf, d, b, bt, hf', hc0, -, hdg, hk, rfl⟩ := actnAddfile_null D H ha
  obtain rfl : f = f' := (Option.some.inj (hf'.symm.trans hf)).symm
  obtain ⟨hcs0, hf0⟩ := Vol.cchk_pos hc0
  obtain rfl := addfileDigest_digest H hcs0 hdg
  obtain ⟨hl, ha'⟩ := addfileDigest_ok H hdg
  obtain ⟨hvol, hnutz⟩ := kopierSchleife_inhalt hcs0 hk
  obtain ⟨hi'', hg, hrec⟩ := hi'.wiedereinhaengen hu hm
  -- the slot the add took: its digest and its record came through the remount
  have hb := shfsBtableLookup_addentry hl ha'
  obtain ⟨he, hh⟩ := hrec b (hi'.lookup_lt hb)
  have hd : v''.bt.h b = v.digest H f := hh.trans (shfsBtableLookup_some hb).1
  have hl'' : shfsBtableLookup v''.bt (v.digest H f) = some b :=
    hd ▸ hi''.lookup_h (hd ▸ digest_ne_null hl ha')
  -- the container's chunks are not reserved, so the unmount left them as the add wrote them
  have hg' : v''.geo = v.geo := hg.trans (hi'.geo.trans hi.geo.symm)
  have hnutz' : ∀ i < f.length, nutzByte p'' v.chunksize (v.cchk f) i = f.getD i 0 :=
    fun i hi₁ => by
      have hq : i / v.chunksize < v.csize f :=
        (lt_divRoundUp_iff hcs0).mpr (Nat.lt_of_le_of_lt (Nat.div_mul_le_self i _) hi₁)
      rw [← hnutz i hi₁, nutzByte, nutzByte, hi'.umount_rahmen hu]
      rw [hi'.geo.trans hi.geo.symm]
      exact hi.nicht_reserviert (shfsAlistFindFree_spec hc0).2.2 (Nat.le_add_right _ _)
        (Nat.add_lt_add_left hq _)
  intro j' uc hp hbuf hio
  obtain ⟨x, hx⟩ := Option.isSome_iff_exists.mp hbuf
  obtain ⟨rest, hcat, hrest⟩ := catSchleife_datei hcs hcs0 hf0 hvol hnutz' hio
  have hvs : v''.volsize = v.volsize := congrArg Geo.volsize hg'
  have hcs'' : v''.chunksize = v.chunksize := congrArg Geo.chunksize hg'
  simp only [actnCatfile, hx, hp, hl'', he, eintragen_hentry_self, neuerHentry, hvs, hcs'', hcat,
    true_and]
  exact hrest

/-- The example volume, mounted: an add of the one byte `1`, the unmount, a new mount. -/
theorem addfile_dauerhaft_vol₀ :
    Erreichbar defs₀ hash₀ ⟨platte₀, some vol₀⟩ ∧ vol₀.chunksize < 2 ^ 64 ∧
    (glatteUmwelt [1] Chunk.null 0).datei = some [1] ∧
    ∃ p' v' p'' v'', actnAddfile defs₀ hash₀ (glatteUmwelt [1] Chunk.null 0)
        ⟨.addobj, "a", none, none⟩ platte₀ vol₀ = (0, p', v') ∧
      umountShfs (fun _ => true) v' p' = some p'' ∧ mountShfs defs₀ mountUmwelt₀ p'' = some v'' ∧
      ∀ (j' : Token) (uc : CatUmwelt), hashParse j'.path v''.hlen = some (vol₀.digest hash₀ [1]) →
        uc.buf.isSome → (∀ k, uc.lies k = true ∧ uc.schreib k = true) →
        (actnCatfile uc j' p'' v'').1 = 0 ∧ (actnCatfile uc j' p'' v'').2.flatten = [1] := by
  have hr : Erreichbar defs₀ hash₀ ⟨platte₀, some vol₀⟩ :=
    .schritt (.start _ frisch_platte₀) (show schritt defs₀ hash₀ ⟨platte₀, none⟩
      (.mount mountUmwelt₀) = some (⟨platte₀, some vol₀⟩, 0, .keine) by
        simp only [schritt, mountShfs_platte₀])
  refine ⟨hr, by decide, rfl, _, _, _, _, rfl, rfl, rfl, ?_⟩
  exact addfile_dauerhaft defs₀ hash₀ hr rfl (by decide)
    (show (glatteUmwelt [1] Chunk.null 0).datei = some [1] from rfl)
    (show actnAddfile defs₀ hash₀ (glatteUmwelt [1] Chunk.null 0) ⟨.addobj, "a", none, none⟩
      platte₀ vol₀ = (0, _, _) from rfl)
    (show umountShfs (fun _ => true) _ _ = some _ from rfl)
    (show mountShfs defs₀ mountUmwelt₀ _ = some _ from rfl)

end Minicache.Shfs
