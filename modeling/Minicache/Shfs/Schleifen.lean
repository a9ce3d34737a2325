/-
  File:      Minicache/Shfs/Schleifen.lean
  Subject:   What the three loops over object contents do: the hashing loop and the copy loop of
             `actn_addfile`, and the loop of `actn_catfile`.

  * `hashSchleife_speist` -- with no read error and no cancel, the hashing loop hands the digest
    primitive the first `(csize - 1) * chunksize + |f| mod chunksize` bytes of the file, in order.
    That is all of `f` unless `|f|` is a positive multiple of `chunksize`: then the last chunk is
    read with length `fsize % chunksize = 0` and left out;
  * `kopierSchleife_rahmen` -- the copy loop writes no chunk outside `[cchk, cchk + csize)`,
    whether it succeeds or fails;
  * **`kopierSchleife_reservierung`** -- the copy loop is one `kopierDurchgang` per chunk of
    `[cchk, cchk + csize)`, in order, and the buffers it writes hold the file and then zeros up
    to `csize * chunksize` bytes;
  * `catSchleife_rahmen`, `catSchleife_fussabdruck` -- the loop of `actn_catfile` reads no chunk
    outside the entry's footprint, and with no I/O error writes exactly the `len` payload bytes,
    in one pass per footprint chunk, or in none for an entry of no bytes.
-/
import Minicache.Shfs.Lauf

namespace Minicache.Shfs

/-! ## 1. Reading the file -/

theorem map_range_getD (f : List UInt8) {pos n : Nat} (h : pos + n ≤ f.length) :
    (List.range n).map (fun k => f.getD (pos + k) 0) = (f.drop pos).take n := by
  apply List.ext_getElem
  · simp only [List.length_map, List.length_range, List.length_take, List.length_drop]
    omega
  · intro i h1 h2
    simp only [List.length_map, List.length_range] at h1
    simp [List.getD_eq_getElem?_getD, List.getElem?_eq_getElem (show pos + i < f.length by omega)]

/-- A `read` of `rlen` bytes that the file still holds, into a buffer that is zero wherever a short
    read (one that reaches the end of the file) leaves it: the buffer's first `chunksize` bytes
    are the file's from `pos`, padded with zeros, and the offset moves by `rlen`. -/
theorem leseDatei_anfang (f : List UInt8) {pos rlen chunksize : Nat} {buf : Chunk}
    (hr : pos + rlen ≤ f.length)
    (hb : rlen < chunksize → f.length ≤ pos + rlen ∧ buf = Chunk.null) :
    (leseDatei f pos rlen buf).1.anfang chunksize =
      (List.range chunksize).map (fun i => f.getD (pos + i) 0) ∧
      (leseDatei f pos rlen buf).2 = pos + rlen := by
  have hn : min rlen (f.length - pos) = rlen := Nat.min_eq_left (Nat.le_sub_of_add_le' hr)
  refine ⟨List.map_congr_left fun k hk => ?_, by simp only [leseDatei, hn]⟩
  have hk := List.mem_range.mp hk
  simp only [leseDatei, hn]
  split
  · rfl
  · obtain ⟨hend, rfl⟩ := hb (by omega)
    rw [List.getD_eq_getElem?_getD, List.getElem?_eq_none (by omega)]; rfl

/-- A `read` of `rlen` bytes that the file still holds puts them at the start of the buffer and
    moves the offset by `rlen`. -/
theorem leseDatei_voll (f : List UInt8) {pos rlen : Nat} (buf : Chunk) (h : pos + rlen ≤ f.length) :
    (leseDatei f pos rlen buf).1.anfang rlen = (f.drop pos).take rlen ∧
      (leseDatei f pos rlen buf).2 = pos + rlen := by
  obtain ⟨hanf, hpos⟩ := leseDatei_anfang f h fun hlt => absurd hlt (Nat.lt_irrefl rlen)
  exact ⟨hanf.trans (map_range_getD f h), hpos⟩

/-! ## 2. The hashing loop -/

section Hashen

variable (u : AddfileUmwelt) (f : List UInt8) (chunksize : Nat)

/-- The file offset of the hashing loop before iteration `c` of `csize`: whole chunks, and after
    the last iteration `fsize % chunksize` bytes more. -/
def hashPos (csize c : Nat) : Nat :=
  if c < csize then c * chunksize else (csize - 1) * chunksize + f.length % chunksize

theorem hashSchleife_lauf (hcs : 0 < chunksize) {csize : Nat}
    (hc : csize = divRoundUp f.length chunksize) :
    ∀ n c (buf : Chunk), c + n = csize →
      (∀ k, c ≤ k → k < csize → u.lies₁ k = true ∧ u.abbruch₁ k = false) →
      ∃ buf', hashSchleife u f chunksize csize n c (hashPos f chunksize csize c) buf
          (f.take (hashPos f chunksize csize c)) = .ok (buf', f.take (hashPos f chunksize csize csize))
  | 0, c, buf, he, _ => ⟨buf, by rw [Nat.add_zero] at he; subst he; rfl⟩
  | n + 1, c, buf, he, hok => by
    have hq := Nat.div_add_mod f.length chunksize
    have hle : csize ≤ f.length / chunksize + 1 := by
      rw [hc, divRoundUp_le_iff hcs, Nat.succ_mul]
      have := Nat.mod_lt f.length hcs
      rw [Nat.mul_comm] at hq
      omega
    set rlen := if c = csize - 1 then f.length % chunksize else chunksize with hr
    have hpos : hashPos f chunksize csize c + rlen = hashPos f chunksize csize (c + 1) := by
      simp only [hashPos, hr, if_pos (show c < csize by omega)]
      by_cases h1 : c + 1 < csize
      · rw [if_neg (by omega), if_pos h1, Nat.succ_mul]
      · have hc1 : c = csize - 1 := by omega
        rw [if_pos hc1, if_neg h1, hc1]
    have hrest : hashPos f chunksize csize (c + 1) ≤ f.length := by
      have h1 : (csize - 1) * chunksize ≤ f.length / chunksize * chunksize :=
        Nat.mul_le_mul_right _ (by omega)
      rw [Nat.mul_comm] at hq
      unfold hashPos
      split_ifs with h3
      · have h2 : (c + 1) * chunksize ≤ (csize - 1) * chunksize := Nat.mul_le_mul_right _ (by omega)
        exact h2.trans (h1.trans (le_of_le_of_eq (Nat.le_add_right _ _) hq))
      · omega
    obtain ⟨hl, hab⟩ := hok c le_rfl (by omega)
    obtain ⟨hpre, hp⟩ := leseDatei_voll f buf (hpos ▸ hrest)
    obtain ⟨buf', h'⟩ := hashSchleife_lauf hcs hc n (c + 1)
      (leseDatei f (hashPos f chunksize csize c) rlen buf).1 (by omega)
      fun k hk hk' => hok k (by omega) hk'
    refine ⟨buf', ?_⟩
    rw [hashSchleife, if_neg (by simp [hl])]
    simp only [hab, if_false]
    rw [← hr, hpre, hp, ← List.take_add, hpos]
    exact h'

/-- **What the hashing loop hands the digest primitive.** With no read error and no cancel, the
    loop of `actn_addfile` over `csize = ceil(|f| / chunksize)` chunks feeds `mhash` the first
    `(csize - 1) * chunksize + |f| mod chunksize` bytes of `f`, in order: the whole file exactly
    when `|f|` is not a positive multiple of `chunksize`. -/
theorem hashSchleife_speist (hcs : 0 < chunksize) (buf : Chunk)
    (hok : ∀ k < divRoundUp f.length chunksize, u.lies₁ k = true ∧ u.abbruch₁ k = false) :
    ∃ buf', hashSchleife u f chunksize (divRoundUp f.length chunksize)
        (divRoundUp f.length chunksize) 0 0 buf [] =
      .ok (buf', f.take ((divRoundUp f.length chunksize - 1) * chunksize + f.length % chunksize)) := by
  have h := hashSchleife_lauf u f chunksize hcs rfl (divRoundUp f.length chunksize) 0 buf
    (Nat.zero_add _) fun k _ hk => hok k hk
  have h0 : hashPos f chunksize (divRoundUp f.length chunksize) 0 = 0 := by
    unfold hashPos
    split_ifs with h1
    · exact Nat.zero_mul _
    · have hcz : divRoundUp f.length chunksize = 0 := by omega
      rw [hcz]
      simp [(divRoundUp_eq_zero_iff hcs).mp hcz]
  rw [h0] at h
  simpa [hashPos] using h

end Hashen

/-- A file of exactly one chunk, read without error: the hashing loop feeds the digest nothing. -/
theorem hashSchleife_speist_ein_chunk :
    0 < 4096 ∧
    (∀ k < divRoundUp (List.replicate 4096 (0x41 : UInt8)).length 4096,
      (glatteUmwelt (List.replicate 4096 0x41) Chunk.null 0).lies₁ k = true ∧
      (glatteUmwelt (List.replicate 4096 0x41) Chunk.null 0).abbruch₁ k =
        false) ∧
    ∃ buf', hashSchleife (glatteUmwelt (List.replicate 4096 0x41) Chunk.null 0)
        (List.replicate 4096 0x41) 4096 (divRoundUp (List.replicate 4096 (0x41 : UInt8)).length 4096)
        (divRoundUp (List.replicate 4096 (0x41 : UInt8)).length 4096) 0 0
        Chunk.null [] = .ok (buf', []) := by
  have hok : ∀ k < divRoundUp (List.replicate 4096 (0x41 : UInt8)).length 4096,
      (glatteUmwelt (List.replicate 4096 0x41) Chunk.null 0).lies₁ k = true ∧
      (glatteUmwelt (List.replicate 4096 0x41) Chunk.null 0).abbruch₁ k =
        false := fun _ _ => ⟨rfl, rfl⟩
  obtain ⟨buf', h⟩ := hashSchleife_speist _ _ 4096 (by decide) Chunk.null hok
  exact ⟨by decide, hok, buf', h.trans (by simp only [List.length_replicate]; rfl)⟩

/-! ## 3. The copy loop -/

/-- One pass over `n > 0` bytes in whole chunks: the chunks left after it are those of `n - d`. -/
theorem divRoundUp_schritt {n d : Nat} (hd : 0 < d) (hn : 0 < n) :
    divRoundUp n d = divRoundUp (n - d) d + 1 := by
  unfold divRoundUp
  by_cases h : d ≤ n
  · rw [show n + d - 1 = n - d + d - 1 + d by omega, Nat.add_div_right _ hd]
  · rw [Nat.div_eq_of_lt (show n - d + d - 1 < d by omega), show n + d - 1 = n - 1 + d by omega,
      Nat.add_div_right _ hd, Nat.div_eq_of_lt (show n - 1 < d by omega)]

/-- `p'` is `p` but for chunks `[a, a + n)`: the headers and every other chunk are as they were. -/
def Platte.gleichAusser (p p' : Platte) (a n : Nat) : Prop :=
  p'.hdrCommon = p.hdrCommon ∧ p'.hdrConfig = p.hdrConfig ∧
    ∀ k, (k < a ∨ a + n ≤ k) → p'.chunk k = p.chunk k

theorem Platte.gleichAusser_refl (p : Platte) (a n : Nat) : p.gleichAusser p a n :=
  ⟨rfl, rfl, fun _ _ => rfl⟩

theorem Platte.gleichAusser_mono {p p' : Platte} {a n a' n' : Nat} (h : p.gleichAusser p' a n)
    (ha : a' ≤ a) (hn : a + n ≤ a' + n') : p.gleichAusser p' a' n' :=
  ⟨h.1, h.2.1, fun k hk => h.2.2 k (by omega)⟩

theorem Platte.gleichAusser_trans {p₁ p₂ p₃ : Platte} {a n : Nat} (h₁ : p₁.gleichAusser p₂ a n)
    (h₂ : p₂.gleichAusser p₃ a n) : p₁.gleichAusser p₃ a n :=
  ⟨h₂.1.trans h₁.1, h₂.2.1.trans h₁.2.1, fun k hk => (h₂.2.2 k hk).trans (h₁.2.2 k hk)⟩

theorem syncWriteChunk_gleichAusser {volsize start : Nat} {p p' : Platte} {buf : Chunk} {ok : Bool}
    (h : syncWriteChunk volsize p start buf ok = some p') : p.gleichAusser p' start 1 := by
  obtain ⟨-, rfl⟩ := syncWriteChunk_some h
  exact ⟨rfl, rfl, fun k hk => Function.update_noteq (by omega) _ _⟩

/-- A pass of the copy loop leaves `left - chunksize` bytes (truncated) to go. -/
theorem kopierSchleife_teilen (left chunksize : Nat) (buf : Chunk) :
    ∃ rlen buf₁, (if left > chunksize then (chunksize, left - chunksize, buf)
      else (left, 0, Chunk.null)) = (rlen, left - chunksize, buf₁) := by
  split_ifs
  · exact ⟨_, _, rfl⟩
  · exact ⟨_, _, by rw [show left - chunksize = 0 by omega]⟩

/-- The members a run of the copy loop leaves, whether it ends well or not. -/
def endPlatte : Except (Int × Platte) Platte → Platte
  | .ok p => p
  | .error (_, p) => p

/-- **The copy loop writes only its container.** From chunk counter `c` with `left` bytes to go,
    every chunk outside `[cchk + c, cchk + c + ceil(left / chunksize))` is left as it was, however
    the loop ends. -/
theorem kopierSchleife_rahmen (u : AddfileUmwelt) (volsize : Nat) (f : List UInt8)
    {chunksize : Nat} (cchk : Nat) (hcs : 0 < chunksize) :
    ∀ fuel left c pos buf (p : Platte),
      p.gleichAusser (endPlatte (kopierSchleife u volsize f chunksize cchk fuel left c pos buf p))
        (cchk + c) (divRoundUp left chunksize)
  | 0, _, _, _, _, p => Platte.gleichAusser_refl p _ _
  | fuel + 1, left, c, pos, buf, p => by
    by_cases h0 : left = 0
    · simp only [kopierSchleife, h0, if_true]
      exact Platte.gleichAusser_refl p _ _
    have hd := divRoundUp_schritt hcs (Nat.pos_of_ne_zero h0)
    obtain ⟨rlen, buf₁, hx⟩ := kopierSchleife_teilen left chunksize buf
    simp only [kopierSchleife, h0, if_false, hx]
    by_cases hl : u.lies₂ c = false
    · simp only [hl, if_true]
      exact Platte.gleichAusser_refl p _ _
    simp only [hl, if_false]
    cases hw : syncWriteChunk volsize p (cchk + c) (leseDatei f pos rlen buf₁).1 (u.schreib c) with
    | none => exact Platte.gleichAusser_refl p _ _
    | some p₁ =>
      have h₁ : p.gleichAusser p₁ (cchk + c) (divRoundUp left chunksize) :=
        Platte.gleichAusser_mono (syncWriteChunk_gleichAusser hw) (Nat.le_refl _) (by omega)
      by_cases ha : u.abbruch₂ c = true
      · simpa only [ha, if_true] using h₁
      · simp only [ha, if_false]
        exact Platte.gleichAusser_trans h₁ (Platte.gleichAusser_mono (kopierSchleife_rahmen u volsize f cchk hcs fuel _ (c + 1) _ _ p₁)
          (by omega) (by omega))

/-- **The copy loop ends well when nothing fails.** If in each of its `ceil(left / chunksize)`
    passes the read and the write succeed, `cancel` is clear and the chunk lies inside the volume,
    the loop returns the members it wrote. -/
theorem kopierSchleife_ok {u : AddfileUmwelt} {volsize : Nat} {f : List UInt8}
    {chunksize cchk : Nat} (hcs : 0 < chunksize) :
    ∀ fuel left c pos buf (p : Platte), divRoundUp left chunksize ≤ fuel →
      (∀ k, c ≤ k → k < c + divRoundUp left chunksize →
        u.lies₂ k = true ∧ u.schreib k = true ∧ u.abbruch₂ k = false ∧ cchk + k ≤ volsize) →
      ∃ p', kopierSchleife u volsize f chunksize cchk fuel left c pos buf p = .ok p'
  | 0, _, _, _, _, p, _, _ => ⟨p, rfl⟩
  | fuel + 1, left, c, pos, buf, p, hfuel, hok => by
    by_cases h0 : left = 0
    · exact ⟨p, by simp only [kopierSchleife, h0, if_true]⟩
    have hd := divRoundUp_schritt hcs (Nat.pos_of_ne_zero h0)
    obtain ⟨rlen, buf₁, hx⟩ := kopierSchleife_teilen left chunksize buf
    obtain ⟨hl, hs, ha, hv⟩ := hok c le_rfl (by omega)
    have hw : syncWriteChunk volsize p (cchk + c) (leseDatei f pos rlen buf₁).1 (u.schreib c) =
        some { p with chunk := Function.update p.chunk (cchk + c) (leseDatei f pos rlen buf₁).1 } :=
      if_pos ⟨by omega, hs⟩
    simp only [kopierSchleife, h0, if_false, hx, hl, hw, ha, Bool.true_eq_false]
    exact kopierSchleife_ok hcs fuel _ (c + 1) _ _ _ (by omega)
      fun k h1 h2 => hok k (by omega) (by omega)

/-- One pass of the copy loop of `actn_addfile` once its buffer `buf` is filled: the `read`
    check, `sync_write_chunk` of chunk `cchk + c`, the test of `cancel`. -/
def kopierDurchgang (u : AddfileUmwelt) (volsize cchk c : Nat) (buf : Chunk) (p : Platte) :
    Except (Int × Platte) Platte :=
  if u.lies₂ c = false then .error (-1, p) else
  match syncWriteChunk volsize p (cchk + c) buf (u.schreib c) with
  | none => .error (-1, p)
  | some p => if u.abbruch₂ c then .error (-2, p) else .ok p

section Kopieren

variable (u : AddfileUmwelt) (volsize : Nat) (f : List UInt8) (chunksize cchk : Nat)

theorem kopierSchleife_null (c pos : Nat) (buf : Chunk) (p : Platte) :
    ∀ fuel, kopierSchleife u volsize f chunksize cchk fuel 0 c pos buf p = .ok p
  | 0 => rfl
  | _ + 1 => by simp only [kopierSchleife, if_true]

/-- A pass of the loop is `kopierDurchgang` with the buffer its `read` filled, then the rest. -/
theorem kopierSchleife_schritt {fuel left : Nat} (h0 : left ≠ 0) (c pos : Nat) (buf : Chunk)
    (p : Platte) {rlen left' : Nat} {buf₁ : Chunk}
    (hx : (if left > chunksize then (chunksize, left - chunksize, buf)
      else (left, 0, Chunk.null)) = (rlen, left', buf₁)) :
    kopierSchleife u volsize f chunksize cchk (fuel + 1) left c pos buf p =
      (kopierDurchgang u volsize cchk c (leseDatei f pos rlen buf₁).1 p).bind
        (kopierSchleife u volsize f chunksize cchk fuel left' (c + 1) (leseDatei f pos rlen buf₁).2
          (leseDatei f pos rlen buf₁).1) := by
  simp only [kopierSchleife, h0, if_false, hx, kopierDurchgang]
  by_cases hl : u.lies₂ c = false
  · simp only [hl, if_true]; rfl
  · simp only [hl, if_false]
    cases syncWriteChunk volsize p (cchk + c) (leseDatei f pos rlen buf₁).1 (u.schreib c) with
    | none => rfl
    | some p' => by_cases ha : u.abbruch₂ c = true <;> simp only [ha] <;> rfl

/-- The bytes `(List.range n)` of the file from `pos` on, padded with zeros past its end. -/
theorem map_range_auffuellen {n : Nat} (h : f.length ≤ n) :
    (List.range n).map (fun i => f.getD i 0) = f ++ List.replicate (n - f.length) 0 := by
  apply List.ext_getElem
  · simp only [List.length_map, List.length_range, List.length_append, List.length_replicate]
    omega
  · intro i h1 h2
    simp only [List.length_map, List.length_range] at h1
    rw [List.getElem_map, List.getElem_range]
    by_cases hi : i < f.length
    · rw [List.getElem_append_left hi, List.getD_eq_getElem?_getD, List.getElem?_eq_getElem hi]
      rfl
    · rw [List.getElem_append_right (by omega), List.getElem_replicate, List.getD_eq_getElem?_getD,
        List.getElem?_eq_none (by omega)]
      rfl

/-- **The copy loop from pass `c`**, at file offset `pos` with `left` bytes to go and fuel for its
    `ceil(left / chunksize)` passes: one `kopierDurchgang` per remaining chunk, in order, whatever
    the members, with buffers whose first `chunksize` bytes are the file's from `pos`, padded with
    zeros. -/
theorem kopierSchleife_durchgaenge (hcs : 0 < chunksize) : ∀ fuel left c pos (buf : Chunk),
    pos + left = f.length → divRoundUp left chunksize ≤ fuel →
    ∃ bs : List Chunk, bs.length = divRoundUp left chunksize ∧
      (∀ p, kopierSchleife u volsize f chunksize cchk fuel left c pos buf p =
        (bs.enumFrom c).foldlM (fun p (k, b) => kopierDurchgang u volsize cchk k b p) p) ∧
      bs.flatMap (fun b => b.anfang chunksize) =
        (List.range (divRoundUp left chunksize * chunksize)).map fun i => f.getD (pos + i) 0
  | fuel, 0, _, _, _, _, _ =>
    ⟨[], by simp, fun p => by rw [kopierSchleife_null]; rfl, by simp⟩
  | 0, left + 1, _, _, _, _, hfuel =>
    absurd hfuel (Nat.not_le.mpr ((lt_divRoundUp_iff hcs).mpr (by omega)))
  | fuel + 1, left + 1, c, pos, buf, hlen, hfuel => by
    have hd : divRoundUp (left + 1) chunksize = divRoundUp (left + 1 - chunksize) chunksize + 1 :=
      divRoundUp_schritt hcs (Nat.succ_pos left)
    -- both branches of the pass: `rlen` bytes into `buf₁`, `left + 1 - chunksize` bytes left
    obtain ⟨rlen, buf₁, hx, hlen', hb⟩ : ∃ rlen buf₁,
        (if left + 1 > chunksize then (chunksize, left + 1 - chunksize, buf)
          else (left + 1, 0, Chunk.null)) = (rlen, left + 1 - chunksize, buf₁) ∧
        pos + rlen + (left + 1 - chunksize) = f.length ∧
        (rlen < chunksize → f.length ≤ pos + rlen ∧ buf₁ = Chunk.null) := by
      split_ifs with hgr
      · exact ⟨_, _, rfl, by omega, by omega⟩
      · exact ⟨_, _, by rw [Nat.sub_eq_zero_of_le (by omega)], by omega, fun _ => ⟨by omega, rfl⟩⟩
    obtain ⟨hanf, hpos'⟩ := leseDatei_anfang f (by omega) hb
    obtain ⟨bs, hl, hs, hbs⟩ := kopierSchleife_durchgaenge hcs fuel (left + 1 - chunksize) (c + 1)
      (pos + rlen) (leseDatei f pos rlen buf₁).1 hlen' (by omega)
    refine ⟨(leseDatei f pos rlen buf₁).1 :: bs, by simp [hl, hd], fun p => ?_, ?_⟩
    · rw [kopierSchleife_schritt u volsize f chunksize cchk (Nat.succ_ne_zero left) c pos buf p hx,
        hpos', List.enumFrom_cons, List.foldlM_cons, show kopierSchleife u volsize f chunksize cchk
          fuel (left + 1 - chunksize) (c + 1) (pos + rlen) (leseDatei f pos rlen buf₁).1 = _
          from funext hs]
      rfl
    · rw [List.flatMap_cons, hbs, hanf, hd, Nat.succ_mul, Nat.add_comm _ chunksize, List.range_add,
        List.map_append, List.map_map]
      refine congrArg _ (List.map_congr_left fun i hi => ?_)
      -- there are bytes after the first chunk only if that chunk was whole
      have hrest : left + 1 - chunksize ≠ 0 := fun h0 => by
        rw [h0, divRoundUp_zero, Nat.zero_mul] at hi
        exact List.not_mem_nil _ hi
      simp only [Function.comp, show rlen = chunksize by omega, Nat.add_assoc]

/-- **The copy loop writes exactly the reservation.** For every file `f` and chunk size at least 1,
    the loop as `actn_addfile` runs it (`left = fsize`, from chunk 0 and offset 0) is, whatever
    the members, `csize = ceil(fsize / chunksize)` passes, pass `c` writing buffer `bs[c]` to chunk
    `cchk + c`; and the first `chunksize` bytes of the buffers, one after another, are the file
    followed by `csize * chunksize - fsize` zero bytes. -/
theorem kopierSchleife_reservierung (buf : Chunk) (hcs : 1 ≤ chunksize) :
    ∃ bs : List Chunk, bs.length = divRoundUp f.length chunksize ∧
      (∀ p, kopierSchleife u volsize f chunksize cchk f.length f.length 0 0 buf p =
        (bs.enumFrom 0).foldlM (fun p (k, b) => kopierDurchgang u volsize cchk k b p) p) ∧
      bs.flatMap (fun b => b.anfang chunksize) =
        f ++ List.replicate (divRoundUp f.length chunksize * chunksize - f.length) 0 := by
  obtain ⟨bs, hl, hs, hb⟩ := kopierSchleife_durchgaenge u volsize f chunksize cchk hcs f.length
    f.length 0 0 buf (Nat.zero_add _)
    ((divRoundUp_le_iff hcs).mpr (Nat.le_mul_of_pos_right _ hcs))
  refine ⟨bs, hl, hs, ?_⟩
  rw [hb, ← map_range_auffuellen f ((divRoundUp_le_iff hcs).mp le_rfl)]
  simp only [Nat.zero_add]

end Kopieren

/-- A three-byte file in two-byte chunks: two passes, and one zero byte after the file. -/
theorem kopierSchleife_reservierung_drei :
    1 ≤ 2 ∧ ∃ bs : List Chunk, bs.length = divRoundUp [1, 2, 3].length 2 ∧
      (∀ p, kopierSchleife (glatteUmwelt [1, 2, 3] Chunk.null 0) 7 [1, 2, 3] 2 3 [1, 2, 3].length
          [1, 2, 3].length 0 0 Chunk.null p =
        (bs.enumFrom 0).foldlM (fun p (k, b) =>
          kopierDurchgang (glatteUmwelt [1, 2, 3] Chunk.null 0) 7 3 k b p) p) ∧
      bs.flatMap (fun b => b.anfang 2) =
        [1, 2, 3] ++ List.replicate (divRoundUp [1, 2, 3].length 2 * 2 - [1, 2, 3].length) 0 :=
  ⟨by decide, kopierSchleife_reservierung _ 7 [1, 2, 3] 2 3 Chunk.null (by decide)⟩

/-! ## 4. The loop of actn_catfile -/

/-- Byte `a` of the payload area that starts at chunk `chunk` of the logical volume: byte
    `a mod chunksize` of chunk `chunk + a / chunksize`. -/
def nutzByte (p : Platte) (chunksize chunk a : Nat) : UInt8 :=
  (p.chunk (chunk + a / chunksize)).bytes (a % chunksize)

theorem nutzByte_im_chunk (p : Platte) {chunksize chunk k x : Nat} (hx : x < chunksize) :
    nutzByte p chunksize chunk (k * chunksize + x) = (p.chunk (chunk + k)).bytes x := by
  have hcs : 0 < chunksize := by omega
  rw [nutzByte, Nat.add_comm (k * chunksize), Nat.add_mul_div_right _ _ hcs, Nat.div_eq_of_lt hx,
    Nat.add_mul_mod_self_right, Nat.mod_eq_of_lt hx, Nat.zero_add]

theorem syncReadChunk_congr {volsize start : Nat} {p p' : Platte} (ok : Bool)
    (h : p'.chunk start = p.chunk start) :
    syncReadChunk volsize p' start ok = syncReadChunk volsize p start ok := by
  simp [syncReadChunk, h]

section Katze

variable (u : CatUmwelt) (volsize chunksize chunk : Nat)

theorem catSchleife_rahmen {p p' : Platte} (hcs : chunksize < 2 ^ 64) :
    ∀ fuel k off left out, off < chunksize →
      (∀ j, k ≤ j → j < k + divRoundUp (off + left) chunksize →
        p'.chunk (chunk + j) = p.chunk (chunk + j)) →
      catSchleife u volsize chunksize p' fuel k (chunk + k) off left out =
        catSchleife u volsize chunksize p fuel k (chunk + k) off left out
  | 0, _, _, _, _, _, _ => rfl
  | fuel + 1, k, off, left, out, hoff, hp => by
    by_cases h0 : left = 0
    · simp [catSchleife, h0]
    have hd := divRoundUp_schritt (show 0 < chunksize by omega) (show 0 < off + left by omega)
    have hr : left - min (u64sub chunksize off) left = off + left - chunksize := by
      rw [u64sub_of_le hoff.le hcs]; omega
    have ih := @catSchleife_rahmen p p' hcs fuel (k + 1) 0 (off + left - chunksize)
    simp only [catSchleife, h0, if_false, syncReadChunk_congr _ (hp k le_rfl (by omega)), hr,
      show chunk + k + 1 = chunk + (k + 1) by omega]
    split
    · rfl
    · split_ifs
      · rfl
      · exact ih _ (by omega) fun j hj hj' => hp j (by omega) (by rw [Nat.zero_add] at hj'; omega)

theorem catSchleife_lauf {p : Platte} (hcs : chunksize < 2 ^ 64) :
    ∀ fuel k off left out, off < chunksize → 0 < left → left < fuel →
      (∀ j, k ≤ j → j < k + divRoundUp (off + left) chunksize →
        chunk + j ≤ volsize ∧ u.lies j = true ∧ u.schreib j = true) →
      ∃ rest, catSchleife u volsize chunksize p fuel k (chunk + k) off left out = (0, out ++ rest) ∧
        rest.length = divRoundUp (off + left) chunksize ∧
        rest.flatten = (List.range left).map fun i => nutzByte p chunksize chunk (k * chunksize + off + i)
  | 0, _, _, _, _, _, _, hf, _ => absurd hf (Nat.not_lt_zero _)
  | fuel + 1, k, off, left, out, hoff, hl, hf, hok => by
    have hcs0 : 0 < chunksize := by omega
    have hd := divRoundUp_schritt hcs0 (show 0 < off + left by omega)
    obtain ⟨hv, hle, hsch⟩ := hok k le_rfl (by omega)
    have hread : syncReadChunk volsize p (chunk + k) (u.lies k) = some (p.chunk (chunk + k)) := by
      simp [syncReadChunk, hv, hle]
    have hpiece : ∀ n, off + n ≤ chunksize →
        (List.range n).map (fun i => (p.chunk (chunk + k)).bytes (off + i)) =
          (List.range n).map fun i => nutzByte p chunksize chunk (k * chunksize + off + i) :=
      fun n hn => List.map_congr_left fun i hi => by
        rw [Nat.add_assoc, nutzByte_im_chunk p (by simp at hi; omega)]
    simp only [catSchleife, if_neg (show left ≠ 0 by omega), hread, hsch, u64sub_of_le hoff.le hcs,
      Bool.true_eq_false, if_false, show chunk + k + 1 = chunk + (k + 1) by omega]
    by_cases hfit : left ≤ chunksize - off
    · rw [min_eq_right hfit, Nat.sub_self]
      refine ⟨[(List.range left).map fun i => (p.chunk (chunk + k)).bytes (off + i)], ?_, ?_, ?_⟩
      · cases fuel <;> simp [catSchleife]
      · simp only [List.length_singleton]
        rw [hd, (divRoundUp_eq_zero_iff hcs0).mpr (by omega)]
      · rw [List.flatten_singleton, hpiece left (by omega)]
    · rw [min_eq_left (by omega)]
      obtain ⟨rest, h1, h2, h3⟩ := catSchleife_lauf hcs fuel (k + 1) 0 (left - (chunksize - off))
        (out ++ [(List.range (chunksize - off)).map fun i => (p.chunk (chunk + k)).bytes (off + i)])
        hcs0 (by omega) (by omega) fun j hj hj' => hok j (by omega) (by
          rw [hd, show off + left - chunksize = 0 + (left - (chunksize - off)) by omega]; omega)
      refine ⟨_ :: rest, by rw [h1, List.append_assoc, List.singleton_append], ?_, ?_⟩
      · rw [List.length_cons, h2, hd]
        congr 2
        omega
      · have hm : List.range left = List.range (chunksize - off) ++
            (List.range (left - (chunksize - off))).map ((chunksize - off) + ·) := by
          rw [← List.range_add]; congr 1; omega
        rw [List.flatten_cons, h3, hpiece _ (by omega), hm, List.map_append, List.map_map]
        congr 1
        refine List.map_congr_left fun i _ => ?_
        simp only [Function.comp, Nat.add_zero]
        congr 1
        rw [Nat.succ_mul]
        omega

/-- **What the loop of `actn_catfile` reads and writes.** For an entry at chunk `chunk` with
    offset `off < chunksize` and any length `len`: the loop reads no chunk outside the footprint
    `[chunk, chunk + ceil((off + len) / chunksize))`; and when every read and write of it
    succeeds it writes, in order, the `len` bytes that start at byte `off` of chunk `chunk`, in
    one pass per footprint chunk when `len ≥ 1` and in no pass when `len = 0` (the footprint of
    an entry of no bytes is one chunk when `off ≥ 1`). -/
theorem catSchleife_fussabdruck (p : Platte) (off len : Nat) (hoff : off < chunksize)
    (hcs : chunksize < 2 ^ 64) :
    (∀ p' : Platte, (∀ j < divRoundUp (off + len) chunksize,
        p'.chunk (chunk + j) = p.chunk (chunk + j)) →
      catSchleife u volsize chunksize p' (len + 1) 0 chunk off len [] =
        catSchleife u volsize chunksize p (len + 1) 0 chunk off len []) ∧
    ((∀ j < divRoundUp (off + len) chunksize,
        chunk + j ≤ volsize ∧ u.lies j = true ∧ u.schreib j = true) →
      ∃ out, catSchleife u volsize chunksize p (len + 1) 0 chunk off len [] = (0, out) ∧
        out.length = (if len = 0 then 0 else divRoundUp (off + len) chunksize) ∧
        out.flatten = (List.range len).map fun i => nutzByte p chunksize chunk (off + i)) := by
  constructor
  · intro p' hp
    simpa using catSchleife_rahmen u volsize chunksize chunk hcs (len + 1) 0 off len [] hoff
      fun j _ hj => hp j (by simpa using hj)
  · intro hok
    rcases Nat.eq_zero_or_pos len with rfl | hlen
    · exact ⟨[], rfl, rfl, rfl⟩
    obtain ⟨rest, h1, h2, h3⟩ := catSchleife_lauf u volsize chunksize chunk hcs (len + 1) 0 off len []
      hoff hlen (Nat.lt_succ_self _) fun j _ hj => hok j (by simpa using hj)
    exact ⟨rest, by simpa using h1, by rw [if_neg (Nat.pos_iff_ne_zero.mp hlen)]; exact h2,
      by simpa using h3⟩

end Katze

theorem catSchleife_fussabdruck_platte₀ :
    (100 < 4096 ∧ 4096 < 2 ^ 64) ∧
    (∀ p' : Platte, (∀ j < divRoundUp (100 + 5000) 4096,
        p'.chunk (3 + j) = platte₀.chunk (3 + j)) →
      catSchleife ⟨some Chunk.null, fun _ => true, fun _ => true⟩ 7 4096 p' (5000 + 1) 0 3 100 5000 [] =
        catSchleife ⟨some Chunk.null, fun _ => true, fun _ => true⟩ 7 4096 platte₀ (5000 + 1) 0 3 100
          5000 []) ∧
    ((∀ j < divRoundUp (100 + 5000) 4096, 3 + j ≤ 7 ∧ true = true ∧ true = true) →
      ∃ out, catSchleife ⟨some Chunk.null, fun _ => true, fun _ => true⟩ 7 4096 platte₀ (5000 + 1) 0 3
          100 5000 [] = (0, out) ∧
        out.length = (if 5000 = 0 then 0 else divRoundUp (100 + 5000) 4096) ∧
        out.flatten = (List.range 5000).map fun i => nutzByte platte₀ 4096 3 (100 + i)) :=
  ⟨⟨by decide, by decide⟩,
    catSchleife_fussabdruck ⟨some Chunk.null, fun _ => true, fun _ => true⟩ 7 4096 3 platte₀ 100 5000
      (by decide) (by decide)⟩

/-- An entry with offset `1` and length `0`: its footprint is one chunk, and the loop makes no
    pass. -/
theorem catSchleife_leer_versatz :
    catSchleife ⟨some Chunk.null, fun _ => true, fun _ => true⟩ 7 4096 platte₀ (0 + 1) 0 3 1 0 [] =
      (0, []) ∧ divRoundUp (1 + 0) 4096 = 1 := ⟨rfl, rfl⟩

end Minicache.Shfs
