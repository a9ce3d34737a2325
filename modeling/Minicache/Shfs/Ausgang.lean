/-
  File:      Minicache/Shfs/Ausgang.lean
  Subject:   How each action can end, and what a failed action leaves.

  * `actnAddfile_faelle` -- every way `actn_addfile` ends: nothing changed (a failure before the
    commit, whose reservation `err_release_container` releases), or the digest took a slot and
    the copy loop wrote inside the container only, and then the add either failed with the entry
    committed or succeeded;
  * `actnRmfile_faelle`, `actnSetdefault_faelle` -- the same for the other actions that change
    `shfs_vol`;
  * `aktion_fehlschlag` -- what a failed action leaves: the allocator and `def_bentry` as they
    were, and the bucket table and the cache too, but for an add that fails at its second `lseek`
    or in its copy loop, which leaves its entry under the digest it computed (`Vol.digest`);
  * `actnAddfile_gelingt` -- when `actn_addfile` succeeds; `actnAddfile_leer` -- the file of no
    bytes never does, since `find_free(0)` answers 0; `actnAddfile_vollstaendig` -- the two
    together.
-/
import Minicache.Shfs.Schleifen

namespace Minicache.Shfs

/-! ## 1. The steps of actn_addfile -/

/-- `csize` of `actn_addfile` for the file `f`. -/
def Vol.csize (v : Vol) (f : List UInt8) : Nat := divRoundUp f.length v.chunksize

/-- `cchk`: where `find_free` puts the container of `f`. -/
def Vol.cchk (v : Vol) (f : List UInt8) : Nat := shfsAlistFindFree v.al (v.csize f)

@[simp] theorem Vol.reservieren_bt (v : Vol) (cchk csize : Nat) :
    (v.reservieren cchk csize).bt = v.bt := rfl
@[simp] theorem Vol.reservieren_chunksize (v : Vol) (cchk csize : Nat) :
    (v.reservieren cchk csize).chunksize = v.chunksize := rfl
@[simp] theorem Vol.reservieren_volsize (v : Vol) (cchk csize : Nat) :
    (v.reservieren cchk csize).volsize = v.volsize := rfl
@[simp] theorem eintragen_chunksize (v : Vol) (bt : Btable) (b : Nat) (e : Hentry) :
    (eintragen v bt b e).chunksize = v.chunksize := rfl
@[simp] theorem eintragen_volsize (v : Vol) (bt : Btable) (b : Nat) (e : Hentry) :
    (eintragen v bt b e).volsize = v.volsize := rfl

/-- `err_release_container` right after the reservation restores the allocator. -/
theorem freigeben_reservieren {v : Vol} {cchk csize : Nat} (h : v.al.frei cchk csize = true) :
    freigeben (v.reservieren cchk csize) cchk csize = v := by
  simp only [freigeben, Vol.reservieren, shfsAlistRegister_of_frei h, Option.getD_some,
    unregister_register h]

theorem eintragen_reservieren (v : Vol) (bt : Btable) (b : Nat) (e : Hentry) (cchk csize : Nat) :
    eintragen (v.reservieren cchk csize) bt b e =
      { eintragen v bt b e with al := (v.reservieren cchk csize).al } := rfl

@[simp] theorem eintragen_al (v : Vol) (bt : Btable) (b : Nat) (e : Hentry) :
    (eintragen v bt b e).al = v.al := rfl

@[simp] theorem eintragen_bt (v : Vol) (bt : Btable) (b : Nat) (e : Hentry) :
    (eintragen v bt b e).bt = bt := rfl

@[simp] theorem eintragen_defBentry (v : Vol) (bt : Btable) (b : Nat) (e : Hentry) :
    (eintragen v bt b e).defBentry = v.defBentry := rfl

/-- The release after a failure past the commit gives the allocator back as it was before the
    reservation, while the entry stays. -/
theorem freigeben_eintragen {v : Vol} {cchk csize : Nat} (h : v.al.frei cchk csize = true)
    (bt : Btable) (b : Nat) (e : Hentry) :
    freigeben (eintragen (v.reservieren cchk csize) bt b e) cchk csize = eintragen v bt b e := by
  rw [eintragen_reservieren]
  simp only [freigeben, Vol.reservieren, shfsAlistRegister_of_frei h, Option.getD_some,
    unregister_register h]
  rfl

/-- A container `find_free` places is one of at least one chunk, of positive size. -/
theorem Vol.cchk_pos {v : Vol} {f : List UInt8} (hc0 : v.cchk f ≠ 0) :
    0 < v.chunksize ∧ 0 < f.length := by
  have hcsize : v.csize f ≠ 0 := fun h0 => hc0 (by rw [Vol.cchk, h0, shfsAlistFindFree_zero])
  refine ⟨Nat.pos_of_ne_zero fun h0 => hcsize ?_, Nat.pos_of_ne_zero fun h0 => hcsize ?_⟩
  · simp [Vol.csize, divRoundUp, h0]
  · rw [Vol.csize, h0, divRoundUp_zero]

/-- A digest that `lookup` does not find and `addentry` places is not the empty one. -/
theorem digest_ne_null {bt bt' : Btable} {d b : Nat} (hl : shfsBtableLookup bt d = none)
    (ha : shfsBtableAddentry bt d = some (b, bt')) : d ≠ 0 := by
  rintro rfl
  obtain ⟨h0, h1, h2, -⟩ := shfsBtableAddentry_some ha
  exact shfsBtableLookup_none hl (b - bt.basis 0) (by omega) (by rw [Nat.add_sub_cancel' h1]; exact h0)

theorem hashSchleife_error {u : AddfileUmwelt} {f : List UInt8} {chunksize csize : Nat} :
    ∀ {n c pos buf fed r}, hashSchleife u f chunksize csize n c pos buf fed = .error r → r < 0
  | 0, _, _, _, _, _, h => by cases h
  | n + 1, c, pos, buf, fed, r, h => by
    by_cases hl : u.lies₁ c = false
    · simp only [hashSchleife, hl, if_true, Except.error.injEq] at h
      omega
    by_cases ha : u.abbruch₁ c = true
    · simp only [hashSchleife, leseDatei, hl, ha, Bool.true_eq_false, if_true, if_false,
        Except.error.injEq] at h
      omega
    · simp only [hashSchleife, leseDatei, hl, ha, Bool.true_eq_false, if_false] at h
      exact hashSchleife_error h

/-- A hashing loop that goes through had every read succeed and never saw `cancel`. -/
theorem hashSchleife_ok {u : AddfileUmwelt} {f : List UInt8} {chunksize csize : Nat} :
    ∀ {n c pos buf fed x}, hashSchleife u f chunksize csize n c pos buf fed = .ok x →
      ∀ k, c ≤ k → k < c + n → u.lies₁ k = true ∧ u.abbruch₁ k = false
  | 0, _, _, _, _, _, _, _, _, hk => absurd hk (by omega)
  | n + 1, c, pos, buf, fed, x, h, k, hk₁, hk₂ => by
    by_cases hl : u.lies₁ c = false
    · simp only [hashSchleife, hl, if_true] at h
      cases h
    by_cases ha : u.abbruch₁ c = true
    · simp only [hashSchleife, leseDatei, hl, ha, Bool.true_eq_false, if_true, if_false] at h
      cases h
    simp only [hashSchleife, leseDatei, hl, ha, Bool.true_eq_false, if_false] at h
    rcases Nat.eq_or_lt_of_le hk₁ with rfl | hk₁
    · exact ⟨by simpa using hl, by simpa using ha⟩
    · exact hashSchleife_ok h k hk₁ (by omega)

theorem kopierSchleife_error {u : AddfileUmwelt} {volsize : Nat} {f : List UInt8}
    {chunksize cchk : Nat} :
    ∀ {fuel left c pos buf p r p'},
      kopierSchleife u volsize f chunksize cchk fuel left c pos buf p = .error (r, p') → r < 0
  | 0, _, _, _, _, _, _, _, h => by cases h
  | fuel + 1, left, c, pos, buf, p, r, p', h => by
    unfold kopierSchleife at h
    split at h
    · cases h
    split at h
    rename_i rlen left' buf₁ _
    split at h
    · cases h; decide
    split at h
    rename_i buf₂ pos₂ _
    split at h
    · cases h; decide
    · split at h
      · cases h; decide
      · exact kopierSchleife_error h

variable (D : ShfsDefs) (H : List UInt8 → Nat)

theorem addfileDigest_error {u : AddfileUmwelt} {f : List UInt8} {chunksize csize : Nat}
    {bt : Btable} {r : Int} (h : addfileDigest H u f chunksize csize bt = .error r) : r < 0 := by
  unfold addfileDigest at h
  split at h
  · cases h; decide
  split_ifs at h
  · cases h; decide
  split at h
  · rename_i hr; cases h; exact hashSchleife_error hr
  split at h
  · cases h; decide
  split at h
  · cases h; decide
  · cases h

/-- **Digest steps that go through**: a buffer, a hashing loop that went through having fed
    `fed`, and its digest, which `lookup` did not find and `addentry` placed. -/
theorem addfileDigest_eq_ok {u : AddfileUmwelt} {f : List UInt8} {chunksize csize : Nat}
    {bt bt' : Btable} {buf : Chunk} {d b : Nat}
    (h : addfileDigest H u f chunksize csize bt = .ok (buf, d, b, bt')) :
    ∃ buf₀ fed, u.tmpChk = some buf₀ ∧
      hashSchleife u f chunksize csize csize 0 0 buf₀ [] = .ok (buf, fed) ∧ d = H fed ∧
      shfsBtableLookup bt d = none ∧ shfsBtableAddentry bt d = some (b, bt') := by
  unfold addfileDigest at h
  split at h
  · cases h
  rename_i buf₀ hb
  split_ifs at h
  split at h
  · cases h
  rename_i fed hh
  split at h
  · cases h
  rename_i hl
  split at h
  · cases h
  rename_i ha
  cases h
  exact ⟨buf₀, fed, hb, hh, rfl, hl, ha⟩

theorem addfileDigest_ok {u : AddfileUmwelt} {f : List UInt8} {chunksize csize : Nat}
    {bt bt' : Btable} {buf : Chunk} {d b : Nat}
    (h : addfileDigest H u f chunksize csize bt = .ok (buf, d, b, bt')) :
    shfsBtableLookup bt d = none ∧ shfsBtableAddentry bt d = some (b, bt') := by
  obtain ⟨-, -, -, -, -, hl, ha⟩ := addfileDigest_eq_ok H h
  exact ⟨hl, ha⟩

/-- The digest `actn_addfile` computes for `f`: that of the bytes its hashing loop feeds. -/
def Vol.digest (v : Vol) (f : List UInt8) : Nat :=
  H (f.take (hashPos f v.chunksize (v.csize f) (v.csize f)))

/-- The hashing loop starts at the beginning of the file. -/
theorem Vol.hashPos_null {v : Vol} {f : List UInt8} (hcs : 0 < v.chunksize) :
    hashPos f v.chunksize (v.csize f) 0 = 0 := by
  unfold hashPos Vol.csize
  split_ifs with h1
  · exact Nat.zero_mul _
  · have hcz : divRoundUp f.length v.chunksize = 0 := by omega
    rw [hcz, (divRoundUp_eq_zero_iff hcs).mp hcz]
    simp

/-- **Digest steps that go through compute `Vol.digest`**: a hashing loop that goes through had
    every read succeed and saw no `cancel`, so it fed the bytes `hashSchleife_lauf` names. -/
theorem addfileDigest_digest {u : AddfileUmwelt} {v : Vol} {f : List UInt8} {bt bt' : Btable}
    {buf : Chunk} {d b : Nat} (hcs : 0 < v.chunksize)
    (h : addfileDigest H u f v.chunksize (v.csize f) bt = .ok (buf, d, b, bt')) :
    d = v.digest H f := by
  obtain ⟨buf₀, fed, -, hh, rfl, -⟩ := addfileDigest_eq_ok H h
  obtain ⟨buf', hl⟩ := @hashSchleife_lauf u f v.chunksize hcs (v.csize f) rfl (v.csize f) 0 buf₀
    (Nat.zero_add _) fun k _ hk => hashSchleife_ok hh k (Nat.zero_le k) (by omega)
  rw [Vol.hashPos_null hcs, List.take_zero] at hl
  cases hl.symm.trans hh
  rfl

/-! ## 2. How actn_addfile ends -/

/-- **Every way `actn_addfile` ends.** Either nothing changes -- it failed before its commit, and
    `err_release_container` gave the reservation back -- or the file `f` was read, `find_free`
    answered a start `cchk` with `0 < cchk < volsize`, the digest `d` was absent and took slot
    `b`, and the copy loop wrote inside `[cchk, cchk + csize)` only; then either a failure after
    the commit left the entry in place and the allocator as it was before the reservation, or the
    add succeeded with the container registered. -/
theorem actnAddfile_faelle {u : AddfileUmwelt} {j : Token} {p p' : Platte} {v v' : Vol} {r : Int}
    (h : actnAddfile D H u j p v = (r, p', v')) :
    (r < 0 ∧ p' = p ∧ v' = v) ∨
    ∃ f buf d b bt, u.datei = some f ∧ v.cchk f ≠ 0 ∧ v.cchk f < v.volsize ∧
      addfileDigest H u f v.chunksize (v.csize f) v.bt = .ok (buf, d, b, bt) ∧
      p.gleichAusser p' (v.cchk f) (v.csize f) ∧
      ((r < 0 ∧ v' = eintragen v bt b (neuerHentry D j u.zeit d (v.cchk f) f.length)) ∨
       (r = 0 ∧ v' = eintragen (v.reservieren (v.cchk f) (v.csize f)) bt b
          (neuerHentry D j u.zeit d (v.cchk f) f.length))) := by
  unfold actnAddfile at h
  cases hd : u.datei with
  | none => rw [hd] at h; cases h; exact .inl ⟨by decide, rfl, rfl⟩
  | some f =>
    simp only [hd] at h
    by_cases hc : shfsAlistFindFree v.al (divRoundUp f.length v.chunksize) = 0 ∨
        shfsAlistFindFree v.al (divRoundUp f.length v.chunksize) ≥ v.volsize
    · rw [if_pos hc] at h; cases h; exact .inl ⟨by decide, rfl, rfl⟩
    rw [if_neg hc] at h
    have hc' : v.cchk f ≠ 0 ∧ v.cchk f < v.volsize := by unfold Vol.cchk Vol.csize; omega
    have hfrei := (shfsAlistFindFree_spec hc'.1).2.2
    have hcs : 0 < v.chunksize := Nat.pos_of_ne_zero fun h0 => hc'.1 (by
      simp [Vol.cchk, Vol.csize, divRoundUp, h0])
    split at h
    · rename_i r₁ hdg
      cases h
      exact .inl ⟨addfileDigest_error H hdg, rfl, freigeben_reservieren hfrei⟩
    rename_i buf d b bt hdg
    by_cases hs : u.lseek₂ = false
    · rw [if_pos hs] at h
      cases h
      exact .inr ⟨f, buf, d, b, bt, rfl, hc'.1, hc'.2, hdg, Platte.gleichAusser_refl p _ _,
        .inl ⟨by decide, freigeben_eintragen hfrei bt b _⟩⟩
    rw [if_neg hs] at h
    have hrahmen := kopierSchleife_rahmen u v.volsize f (v.cchk f) hcs f.length f.length 0 0 buf p
    simp only [Nat.add_zero, Vol.cchk, Vol.csize] at hrahmen
    -- the copy loop runs on the committed volume, whose geometry is that of `v`
    simp only [eintragen_volsize, eintragen_chunksize, Vol.reservieren_volsize,
      Vol.reservieren_chunksize] at h
    split at h
    · rename_i r₁ p₁ hk
      cases h
      rw [hk] at hrahmen
      exact .inr ⟨f, buf, d, b, bt, rfl, hc'.1, hc'.2, hdg, hrahmen,
        .inl ⟨kopierSchleife_error hk, freigeben_eintragen hfrei bt b _⟩⟩
    · rename_i p₁ hk
      cases h
      rw [hk] at hrahmen
      exact .inr ⟨f, buf, d, b, bt, rfl, hc'.1, hc'.2, hdg, hrahmen, .inr ⟨rfl, rfl⟩⟩

/-- The successful end of `actn_addfile`, from the answers of its steps. -/
theorem actnAddfile_eq_ok {u : AddfileUmwelt} {j : Token} {p p' : Platte} {v : Vol}
    {f : List UInt8} {buf : Chunk} {d b : Nat} {bt : Btable} (hf : u.datei = some f)
    (hc : v.cchk f ≠ 0 ∧ v.cchk f < v.volsize)
    (hdg : addfileDigest H u f v.chunksize (v.csize f) v.bt = .ok (buf, d, b, bt))
    (hs : u.lseek₂ = true)
    (hk : kopierSchleife u v.volsize f v.chunksize (v.cchk f) f.length f.length 0 0 buf p = .ok p') :
    actnAddfile D H u j p v = (0, p', eintragen (v.reservieren (v.cchk f) (v.csize f)) bt b
      (neuerHentry D j u.zeit d (v.cchk f) f.length)) := by
  simp only [Vol.cchk, Vol.csize] at hc hdg hk ⊢
  simp only [actnAddfile, hf, Vol.reservieren_bt, Vol.reservieren_chunksize, eintragen_volsize,
    eintragen_chunksize, Vol.reservieren_volsize, hdg, hs, hk, Bool.true_eq_false, if_false]
  exact if_neg (by omega)

/-- **An add that returns 0**: the file was read, the container found, the digest took a slot,
    and the copy loop went through; `shfs_vol` is then the committed one. -/
theorem actnAddfile_null {u : AddfileUmwelt} {j : Token} {p p' : Platte} {v v' : Vol}
    (h : actnAddfile D H u j p v = (0, p', v')) :
    ∃ f buf d b bt, u.datei = some f ∧ v.cchk f ≠ 0 ∧ v.cchk f < v.volsize ∧
      addfileDigest H u f v.chunksize (v.csize f) v.bt = .ok (buf, d, b, bt) ∧
      kopierSchleife u v.volsize f v.chunksize (v.cchk f) f.length f.length 0 0 buf p = .ok p' ∧
      v' = eintragen (v.reservieren (v.cchk f) (v.csize f)) bt b
        (neuerHentry D j u.zeit d (v.cchk f) f.length) := by
  unfold actnAddfile at h
  cases hd : u.datei with
  | none => simp only [hd, Prod.mk.injEq] at h; omega
  | some f =>
    simp only [hd] at h
    by_cases hc : shfsAlistFindFree v.al (divRoundUp f.length v.chunksize) = 0 ∨
        shfsAlistFindFree v.al (divRoundUp f.length v.chunksize) ≥ v.volsize
    · rw [if_pos hc] at h; simp only [Prod.mk.injEq] at h; omega
    rw [if_neg hc] at h
    split at h
    · rename_i r hdg
      have := addfileDigest_error H hdg
      simp only [Prod.mk.injEq] at h; omega
    rename_i buf d b bt hdg
    by_cases hs : u.lseek₂ = false
    · rw [if_pos hs] at h; simp only [Prod.mk.injEq] at h; omega
    rw [if_neg hs] at h
    simp only [eintragen_volsize, eintragen_chunksize, Vol.reservieren_volsize,
      Vol.reservieren_chunksize] at h
    split at h
    · rename_i r p₁ hk
      have := kopierSchleife_error hk
      simp only [Prod.mk.injEq] at h; omega
    · rename_i p₁ hk
      simp only [Prod.mk.injEq] at h
      obtain ⟨-, rfl, rfl⟩ := h
      exact ⟨f, buf, d, b, bt, rfl, by unfold Vol.cchk Vol.csize; omega,
        by unfold Vol.cchk Vol.csize; omega, hdg, hk, rfl⟩

/-! ## 3. How the other actions end -/

/-- `actn_rmfile` either fails and changes nothing, or releases the entry's container, clears its
    slot and its record's digest, and marks the record's chunk modified. -/
theorem actnRmfile_faelle {j : Token} {v v' : Vol} {r : Int} (h : actnRmfile j v = (r, v')) :
    (r = -1 ∧ v' = v) ∨
    ∃ d b al, hashParse j.path v.hlen = some d ∧ shfsBtableLookup v.bt d = some b ∧
      shfsAlistUnregister v.al (v.hentry b).chunk
        (divRoundUp ((v.hentry b).len + (v.hentry b).offset) v.chunksize) = some al ∧ r = 0 ∧
      v' = (({ v with al := al, bt := { v.bt with h := Function.update v.bt.h b 0 } } : Vol).storeHentry b
        { v.hentry b with hash := 0 }).markModified (v.bt.bentry b).hentryHtchunk := by
  unfold actnRmfile at h
  split at h
  · cases h; exact .inl ⟨rfl, rfl⟩
  rename_i d hd
  split at h
  · cases h; exact .inl ⟨rfl, rfl⟩
  rename_i b hb
  rw [shfsBtableRmentry_of_some hb] at h
  dsimp only at h
  split at h
  · cases h; exact .inl ⟨rfl, rfl⟩
  rename_i al hal
  cases h
  exact .inr ⟨d, b, al, hd, hb, hal, rfl, rfl⟩

/-- `actn_setdefault` either fails and changes nothing, or clears the previous default and flags
    the entry it found. -/
theorem actnSetdefault_faelle {j : Token} {v v' : Vol} {r : Int}
    (h : actnSetdefault D j v = (r, v')) :
    (r = -1 ∧ v' = v) ∨
    ∃ d b, hashParse j.path v.hlen = some d ∧ shfsBtableLookup v.bt d = some b ∧ r = 0 ∧
      v' = { bentrySetflags (actnCleardefault D v).2 b D.eflagDefault with defBentry := some b } := by
  unfold actnSetdefault at h
  split at h
  · cases h; exact .inl ⟨rfl, rfl⟩
  rename_i d hd
  split at h
  · cases h; exact .inl ⟨rfl, rfl⟩
  rename_i b hb
  cases h
  exact .inr ⟨d, b, hd, hb, rfl, rfl⟩

theorem actnCleardefault_null (v : Vol) : (actnCleardefault D v).1 = 0 := by
  unfold actnCleardefault; split <;> rfl

/-! ## 4. Failed actions -/

/-- **What a failed action leaves.** An action that returns a negative code leaves the allocator
    and the default bentry as they were. It leaves the bucket table and the hash-table chunk cache
    with its `CCS_MODIFIED` bits as they were too, except an `actn_addfile` that fails after its
    commit: its digest steps went through, so the digest `Vol.digest` of the file was absent and
    took slot `b`, empty before; then the second `lseek` or the copy loop failed. The entry stays:
    slot `b` holds the digest and the new record is in the cache with its chunk marked
    modified. -/
theorem aktion_fehlschlag {p p' : Platte} {v v' : Vol} {e : Ereignis} {r : Int} {a : Ausgabe}
    (h : aktion D H p v e = some (p', v', r, a)) (hr : r < 0) :
    v'.al = v.al ∧ v'.defBentry = v.defBentry ∧
    ((v'.bt = v.bt ∧ v'.htableChunkCache = v.htableChunkCache ∧
      v'.htableChunkCacheState = v.htableChunkCacheState) ∨
    ∃ j u f buf b bt, e = .addfile j u ∧ u.datei = some f ∧
      addfileDigest H u f v.chunksize (v.csize f) v.bt = .ok (buf, v.digest H f, b, bt) ∧
      (u.lseek₂ = false ∨ ∃ r' q, kopierSchleife u v.volsize f v.chunksize (v.cchk f) f.length
        f.length 0 0 buf p = .error (r', q)) ∧
      v.digest H f ≠ 0 ∧ v.bt.h b = 0 ∧ v'.bt.h b = v.digest H f ∧ v'.bt = bt ∧
      v'.htableChunkCache = (eintragen v bt b
        (neuerHentry D j u.zeit (v.digest H f) (v.cchk f) f.length)).htableChunkCache ∧
      v'.htableChunkCacheState = (eintragen v bt b
        (neuerHentry D j u.zeit (v.digest H f) (v.cchk f) f.length)).htableChunkCacheState) := by
  cases e <;> simp only [aktion, actnLs, Option.some.injEq, Prod.mk.injEq] at h
  case addfile j u =>
    obtain ⟨hp, hv, hr', -⟩ := h
    have hA : actnAddfile D H u j p v = (r, p', v') := Prod.ext hr' (Prod.ext hp hv)
    rcases actnAddfile_faelle D H hA with
      ⟨-, -, rfl⟩ | ⟨f, buf, d, b, bt, hf, hc0, hcv, hdg, -, ⟨-, rfl⟩ | ⟨rfl, -⟩⟩
    · exact ⟨rfl, rfl, .inl ⟨rfl, rfl, rfl⟩⟩
    · obtain rfl := addfileDigest_digest H (Vol.cchk_pos hc0).1 hdg
      obtain ⟨hl, ha⟩ := addfileDigest_ok H hdg
      obtain ⟨hb0, -, -, rfl⟩ := shfsBtableAddentry_some ha
      -- a copy that went through would have returned 0
      have hnach : u.lseek₂ = false ∨ ∃ r' q, kopierSchleife u v.volsize f v.chunksize
          (v.cchk f) f.length f.length 0 0 buf p = .error (r', q) := by
        cases hs : u.lseek₂
        · exact .inl rfl
        cases hk : kopierSchleife u v.volsize f v.chunksize (v.cchk f) f.length f.length 0 0 buf p with
        | error x => exact .inr ⟨x.1, x.2, rfl⟩
        | ok q =>
          rw [actnAddfile_eq_ok D H hf ⟨hc0, hcv⟩ hdg hs hk, Prod.mk.injEq] at hA
          omega
      exact ⟨rfl, rfl, .inr ⟨j, u, f, buf, b, _, rfl, hf, hdg, hnach, digest_ne_null hl ha, hb0,
        Function.update_same _ _ _, rfl, rfl, rfl⟩⟩
    · omega
  case rmfile j =>
    obtain ⟨-, hv, hr', -⟩ := h
    rcases actnRmfile_faelle (Prod.ext hr' hv) with ⟨-, rfl⟩ | ⟨-, -, -, -, -, -, rfl, -⟩
    · exact ⟨rfl, rfl, .inl ⟨rfl, rfl, rfl⟩⟩
    · omega
  case setdefault j =>
    obtain ⟨-, hv, hr', -⟩ := h
    rcases actnSetdefault_faelle D (Prod.ext hr' hv) with ⟨-, rfl⟩ | ⟨-, -, -, -, rfl, -⟩
    · exact ⟨rfl, rfl, .inl ⟨rfl, rfl, rfl⟩⟩
    · omega
  case cleardefault =>
    have := actnCleardefault_null D v
    omega
  case ls => omega
  case catfile | info =>
    obtain ⟨-, rfl, -⟩ := h
    exact ⟨rfl, rfl, .inl ⟨rfl, rfl, rfl⟩⟩
  case mount | umount => cases h

/-- On the mounted example volume, an add of the one-byte file `[1]` whose chunk write fails:
    it returns `-1`, leaves the allocator as it was, and leaves its digest `2` in slot `0` of the
    bucket table, empty before. -/
theorem aktion_fehlschlag_addfile :
    ∃ p' v' a, aktion defs₀ hash₀ platte₀ vol₀ (.addfile ⟨.addobj, "a", none, none⟩
        { glatteUmwelt [1] Chunk.null 0 with schreib := fun _ => false }) = some (p', v', -1, a) ∧
      vol₀.bt.h 0 = 0 ∧ v'.bt.h 0 = 2 ∧ vol₀.digest hash₀ [1] = 2 ∧ (-1 : Int) < 0 ∧
      v'.al = vol₀.al ∧ v'.defBentry = vol₀.defBentry ∧
      ((v'.bt = vol₀.bt ∧ v'.htableChunkCache = vol₀.htableChunkCache ∧
        v'.htableChunkCacheState = vol₀.htableChunkCacheState) ∨
      ∃ j u f buf b bt, Ereignis.addfile ⟨.addobj, "a", none, none⟩
          { glatteUmwelt [1] Chunk.null 0 with schreib := fun _ => false } = .addfile j u ∧
        u.datei = some f ∧
        addfileDigest hash₀ u f vol₀.chunksize (vol₀.csize f) vol₀.bt =
          .ok (buf, vol₀.digest hash₀ f, b, bt) ∧
        (u.lseek₂ = false ∨ ∃ r' q, kopierSchleife u vol₀.volsize f vol₀.chunksize (vol₀.cchk f)
          f.length f.length 0 0 buf platte₀ = .error (r', q)) ∧
        vol₀.digest hash₀ f ≠ 0 ∧ vol₀.bt.h b = 0 ∧ v'.bt.h b = vol₀.digest hash₀ f ∧ v'.bt = bt ∧
        v'.htableChunkCache = (eintragen vol₀ bt b (neuerHentry defs₀ j u.zeit
          (vol₀.digest hash₀ f) (vol₀.cchk f) f.length)).htableChunkCache ∧
        v'.htableChunkCacheState = (eintragen vol₀ bt b (neuerHentry defs₀ j u.zeit
          (vol₀.digest hash₀ f) (vol₀.cchk f) f.length)).htableChunkCacheState) := by
  exact ⟨_, _, _, rfl, by decide, by decide, by decide, by decide,
    aktion_fehlschlag defs₀ hash₀ rfl (by decide)⟩

/-! ## 5. When actn_addfile succeeds -/

/-- No I/O error and no cancel in `actn_addfile` for a container of `n` chunks: the temporary
    buffer is allocated, `mhash_init` and both `lseek` calls succeed, and in each of the `n`
    passes of each loop the read and the write succeed and `cancel` is clear. -/
structure AddfileUmwelt.Glatt (u : AddfileUmwelt) (n : Nat) : Prop where
  tmpChk : u.tmpChk.isSome
  mhashInit : u.mhashInit = true
  lseek₁ : u.lseek₁ = true
  lies₁ : ∀ k < n, u.lies₁ k = true
  abbruch₁ : ∀ k < n, u.abbruch₁ k = false
  lseek₂ : u.lseek₂ = true
  lies₂ : ∀ k < n, u.lies₂ k = true
  schreib : ∀ k < n, u.schreib k = true
  abbruch₂ : ∀ k < n, u.abbruch₂ k = false

theorem glatteUmwelt_glatt (f : List UInt8) (buf : Chunk) (zeit n : Nat) :
    (glatteUmwelt f buf zeit).Glatt n :=
  ⟨rfl, rfl, rfl, fun _ _ => rfl, fun _ _ => rfl, rfl, fun _ _ => rfl, fun _ _ => rfl,
    fun _ _ => rfl⟩

/-- Without errors, the digest steps of `actn_addfile` compute `Vol.digest` and, when it is absent,
    hand it the slot `shfs_btable_addentry` finds. -/
theorem addfileDigest_glatt {u : AddfileUmwelt} {v : Vol} {f : List UInt8} {bt : Btable} {b : Nat}
    (hcs : 0 < v.chunksize) (hlen : 0 < f.length) (hu : u.Glatt (v.csize f))
    (hl : shfsBtableLookup v.bt (v.digest H f) = none)
    (ha : shfsBtableAddentry v.bt (v.digest H f) = some (b, bt)) :
    ∃ buf, addfileDigest H u f v.chunksize (v.csize f) v.bt = .ok (buf, v.digest H f, b, bt) := by
  obtain ⟨buf₀, hbuf⟩ := Option.isSome_iff_exists.mp hu.tmpChk
  have hpos : 0 < v.csize f := Nat.pos_of_ne_zero fun h0 =>
    Nat.pos_iff_ne_zero.mp hlen ((divRoundUp_eq_zero_iff hcs).mp h0)
  obtain ⟨buf, hh⟩ := @hashSchleife_lauf u f v.chunksize hcs (v.csize f) rfl (v.csize f) 0 buf₀
    (Nat.zero_add _) fun k _ hk => ⟨hu.lies₁ k hk, hu.abbruch₁ k hk⟩
  have h0 : hashPos f v.chunksize (v.csize f) 0 = 0 := by simp [hashPos, hpos]
  rw [h0, List.take_zero] at hh
  refine ⟨buf, ?_⟩
  simp only [addfileDigest, hbuf, hu.mhashInit, hu.lseek₁, Bool.true_eq_false, or_self, if_false]
  rw [hh]
  simp only [Vol.digest] at hl ha
  simp only [hl, ha]
  rfl

/-- **When `actn_addfile` succeeds.** On a mounted volume, for a regular file `f` of at least one
    byte with no I/O error and no cancel: if the digest it computes is absent and its bucket has a
    free slot, and the allocator -- FIRST-fit or BEST-fit -- has `csize = ceil(|f| / chunksize)`
    free chunks inside `[2, volsize + 1)` and `find_free` does not answer chunk `volsize`, then
    the add returns `0` and registers a range `[cchk, cchk + csize)` inside `[2, volsize + 1)`. -/
theorem actnAddfile_gelingt {u : AddfileUmwelt} {j : Token} {p : Platte} {v : Vol}
    {f : List UInt8} (hcs : 0 < v.chunksize) (hvol : v.al.volsize = v.volsize)
    (hpol : v.al.allocator ≠ .unbekannt) (hf : u.datei = some f) (hlen : 0 < f.length)
    (hu : u.Glatt (v.csize f)) (hneu : shfsBtableLookup v.bt (v.digest H f) = none)
    (hplatz : ∃ k < v.bt.elPerBkt, v.bt.h (v.bt.basis (v.digest H f) + k) = 0)
    (hraum : ∃ s, 2 ≤ s ∧ s + v.csize f ≤ v.volsize + 1 ∧ v.al.frei s (v.csize f) = true)
    (hrand : v.cchk f ≠ v.volsize) :
    ∃ cchk p' v', actnAddfile D H u j p v = (0, p', v') ∧ 2 ≤ cchk ∧
      cchk + v.csize f ≤ v.volsize + 1 ∧ shfsAlistRegister v.al cchk (v.csize f) = some v'.al := by
  have hpos : 0 < v.csize f := Nat.pos_of_ne_zero fun h0 =>
    Nat.pos_iff_ne_zero.mp hlen ((divRoundUp_eq_zero_iff hcs).mp h0)
  obtain ⟨s, h2, hv, hfr⟩ := hraum
  have hne : v.cchk f ≠ 0 := findFree_ne_zero hpol hpos h2 (hvol ▸ hv) hfr
  obtain ⟨hc2, hcv, hcfrei⟩ : 2 ≤ v.cchk f ∧ v.cchk f + v.csize f ≤ v.al.volsize + 1 ∧
      v.al.frei (v.cchk f) (v.csize f) = true := shfsAlistFindFree_spec hne
  rw [hvol] at hcv
  obtain ⟨b, bt, ha⟩ : ∃ b bt, shfsBtableAddentry v.bt (v.digest H f) = some (b, bt) := by
    cases ha : shfsBtableAddentry v.bt (v.digest H f) with
    | none =>
      obtain ⟨k, hk, h0⟩ := hplatz
      exact absurd h0 (shfsBtableAddentry_none ha k hk)
    | some x => exact ⟨x.1, x.2, rfl⟩
  obtain ⟨buf, hdg⟩ := addfileDigest_glatt H hcs hlen hu hneu ha
  obtain ⟨p', hk⟩ := @kopierSchleife_ok u v.volsize f _ (v.cchk f) hcs
    f.length f.length 0 0 buf p
    ((divRoundUp_le_iff hcs).mpr (Nat.le_mul_of_pos_right _ hcs))
    fun k _ hk => by
      have hk : k < v.csize f := by rw [Nat.zero_add] at hk; exact hk
      exact ⟨hu.lies₂ k hk, hu.schreib k hk, hu.abbruch₂ k hk, by omega⟩
  refine ⟨v.cchk f, p', _, actnAddfile_eq_ok D H hf ⟨hne, by omega⟩ hdg hu.lseek₂ hk, hc2, hcv, ?_⟩
  simp only [eintragen_al, Vol.reservieren, shfsAlistRegister_of_frei hcfrei, Option.getD_some]

/-- **The empty file is never added.** `find_free(0)` answers `0`, which the test `cchk == 0`
    takes for "no room": on every volume, an add of a file of no bytes returns `-1` and changes
    nothing. -/
theorem actnAddfile_leer {u : AddfileUmwelt} {j : Token} {p : Platte} {v : Vol}
    (hf : u.datei = some []) : actnAddfile D H u j p v = (-1, p, v) := by
  simp only [actnAddfile, hf, List.length_nil, divRoundUp_zero, shfsAlistFindFree_zero, true_or,
    if_true]

/-- **Completeness of `actn_addfile`, and the empty file.** Under everything the add asks of the
    volume and the world -- chunks of positive size, an allocator of a known kind over `volsize`
    chunks, no I/O error and no cancel, a digest absent with a free slot in its bucket, a free range
    of `csize` chunks inside `[2, volsize + 1)` that `find_free` does not answer with chunk
    `volsize` -- a file of at least one byte is added and its container registered inside
    `[2, volsize + 1)`, while the file of no bytes is refused with `-1`. -/
theorem actnAddfile_vollstaendig {u : AddfileUmwelt} {j : Token} {p : Platte} {v : Vol}
    {f : List UInt8} (hcs : 0 < v.chunksize) (hvol : v.al.volsize = v.volsize)
    (hpol : v.al.allocator ≠ .unbekannt) (hf : u.datei = some f)
    (hu : u.Glatt (v.csize f)) (hneu : shfsBtableLookup v.bt (v.digest H f) = none)
    (hplatz : ∃ k < v.bt.elPerBkt, v.bt.h (v.bt.basis (v.digest H f) + k) = 0)
    (hraum : ∃ s, 2 ≤ s ∧ s + v.csize f ≤ v.volsize + 1 ∧ v.al.frei s (v.csize f) = true)
    (hrand : v.cchk f ≠ v.volsize) :
    (f = [] → actnAddfile D H u j p v = (-1, p, v)) ∧
    (0 < f.length → ∃ cchk p' v', actnAddfile D H u j p v = (0, p', v') ∧ 2 ≤ cchk ∧
      cchk + v.csize f ≤ v.volsize + 1 ∧ shfsAlistRegister v.al cchk (v.csize f) = some v'.al) :=
  ⟨fun h0 => actnAddfile_leer D H (h0 ▸ hf),
    fun hlen => actnAddfile_gelingt D H hcs hvol hpol hf hlen hu hneu hplatz hraum hrand⟩

/-- The empty file on the mounted example volume, in a world where nothing fails: every
    hypothesis holds, and the add returns `-1`. -/
theorem actnAddfile_vollstaendig_leer :
    0 < vol₀.chunksize ∧ vol₀.al.volsize = vol₀.volsize ∧ vol₀.al.allocator ≠ .unbekannt ∧
    (glatteUmwelt [] Chunk.null 0).datei = some [] ∧
    (glatteUmwelt [] Chunk.null 0).Glatt (vol₀.csize []) ∧
    shfsBtableLookup vol₀.bt (vol₀.digest hash₀ []) = none ∧
    (∃ k < vol₀.bt.elPerBkt, vol₀.bt.h (vol₀.bt.basis (vol₀.digest hash₀ []) + k) = 0) ∧
    (∃ s, 2 ≤ s ∧ s + vol₀.csize [] ≤ vol₀.volsize + 1 ∧ vol₀.al.frei s (vol₀.csize []) = true) ∧
    vol₀.cchk [] ≠ vol₀.volsize ∧
    (([] : List UInt8) = [] → actnAddfile defs₀ hash₀ (glatteUmwelt [] Chunk.null 0)
      ⟨.addobj, "leer", none, none⟩ platte₀ vol₀ = (-1, platte₀, vol₀)) ∧
    (0 < ([] : List UInt8).length → ∃ cchk p' v', actnAddfile defs₀ hash₀
        (glatteUmwelt [] Chunk.null 0) ⟨.addobj, "leer", none, none⟩ platte₀ vol₀ = (0, p', v') ∧
      2 ≤ cchk ∧ cchk + vol₀.csize [] ≤ vol₀.volsize + 1 ∧
      shfsAlistRegister vol₀.al cchk (vol₀.csize []) = some v'.al) :=
  ⟨by decide, by decide, by decide, rfl, glatteUmwelt_glatt _ _ _ _, by decide,
    ⟨0, by decide, by decide⟩, ⟨2, by decide, by decide, by decide⟩, by decide,
    actnAddfile_vollstaendig defs₀ hash₀ (by decide) (by decide) (by decide) rfl
      (glatteUmwelt_glatt _ _ _ _) (by decide) ⟨0, by decide, by decide⟩
      ⟨2, by decide, by decide, by decide⟩ (by decide)⟩

/- `find_free` answering chunk `volsize` makes an add with room fail, as the test
   `cchk >= volsize` asks: on the example volume cut to `volsize = 4`, a one-chunk file after a
   first one took chunk `3`, while chunk `4` is free. -/
example :
    ((mountShfs defs₀ mountUmwelt₀ { platte₀ with hdrCommon.volSize := 4 }).map fun v =>
      let (r, p, v) := actnAddfile defs₀ hash₀ (glatteUmwelt [1] Chunk.null 0)
        ⟨.addobj, "a", none, none⟩ { platte₀ with hdrCommon.volSize := 4 } v
      let (r', _, _) := actnAddfile defs₀ hash₀ (glatteUmwelt [2] Chunk.null 0)
        ⟨.addobj, "b", none, none⟩ p v
      (r, r', v.al.belegt 4, v.cchk [2])) = some (0, -1, false, 4) := by
  decide

end Minicache.Shfs
