/-
  File:      Minicache/Shfs/Belegung.lean
  Subject:   The allocator over whole runs: the chunks `shfs_vol.al` keeps, against the
             containers of the live hash-table records.

  `load_vol_alist` registers the label chunks, the hash-table regions and the container of each
  live record; `actn_addfile` registers the range `find_free` gives and releases it again on
  every failure; `actn_rmfile` releases the container of the record `lookup` finds and empties
  the record, which keeps its `chunk`, `offset` and `len`. Two steps release a range whose chunks
  a live record may hold: an add that fails after its commit (`addfile_fehler_nach_commit`,
  Bestand.lean), and a remove of the all-zero digest, which `lookup`, matching the full digest,
  answers with an empty slot (`rmfile_null_gibt_frei`).

  * `ImContainer`, `Container` -- the chunks of a live record's container; the containers
    pairwise disjoint and inside the volume;
  * **`belegung_ohneLeck`** -- in every reachable state the allocator keeps no chunk that is
    neither reserved nor in a live container;
  * `Belegung`, `PlatteBelegung` -- the allocator keeps exactly the reserved chunks and the live
    containers, and `Container` holds; between sessions, `Container` for the records on disk;
  * `Belegung.nachAktion`, `mount_belegung`, `Belegung.umount` -- every action but the two
    `Riskant` ones keeps `Belegung`, the mount makes it from `PlatteBelegung`, the unmount
    leaves that;
  * **`belegung_genau`** -- on every run without a `Riskant` step; **`schritt_schont_container`**
    -- so from every state such a run reaches, no step writes a chunk of a live container (a
    `Riskant` step can lead to that: `lauf_ueberschreibt`, Bestand.lean);
  * **`rmfile_null_gibt_frei`** -- the remove of the all-zero digest releases the container an
    empty slot's record still names.

  NOT here: the bytes in the containers (Rundreise.lean).
-/
import Minicache.Shfs.Bestand

namespace Minicache.Shfs

/-! ## 1. Containers -/

/-- Chunk `c` lies in the container of the record `e`, and `e` is live: `c` in `[chunk, chunk +
    DIV_ROUND_UP(len + offset, chunksize))`, the range `actn_rmfile` releases. -/
def Hentry.haelt (e : Hentry) (chunksize c : Nat) : Prop :=
  e.hash ≠ 0 ∧ e.chunk ≤ c ∧ c < e.chunk + e.fussabdruck chunksize

instance (e : Hentry) (chunksize c : Nat) : Decidable (e.haelt chunksize c) :=
  inferInstanceAs (Decidable (_ ∧ _ ∧ _))

/-- Chunk `c` lies in the container of the live record of slot `i`. -/
def ImContainer (g : Geo) (rec : Nat → Hentry) (i c : Nat) : Prop :=
  i < g.htableNbEntries ∧ (rec i).haelt g.chunksize c

instance (g : Geo) (rec : Nat → Hentry) (i c : Nat) : Decidable (ImContainer g rec i c) :=
  inferInstanceAs (Decidable (_ ∧ _))

/-- The containers of the live records: no chunk in two of them, none past the volume. -/
structure Container (g : Geo) (rec : Nat → Hentry) : Prop where
  getrennt : ∀ i j c, ImContainer g rec i c → ImContainer g rec j c → i = j
  im_volumen : ∀ i c, ImContainer g rec i c → c < g.volsize + 1

@[simp] theorem Vol.geo_chunksize (v : Vol) : v.geo.chunksize = v.chunksize := rfl
@[simp] theorem Vol.geo_volsize (v : Vol) : v.geo.volsize = v.volsize := rfl
@[simp] theorem Vol.geo_htableNbEntries (v : Vol) : v.geo.htableNbEntries = v.htableNbEntries :=
  rfl

theorem GleicherKern.trans {e e' e'' : Hentry} (h : GleicherKern e e') (h' : GleicherKern e' e'') :
    GleicherKern e e'' :=
  ⟨h'.1.trans h.1, h'.2.1.trans h.2.1, h'.2.2.1.trans h.2.2.1, h'.2.2.2.trans h.2.2.2⟩

theorem Hentry.haelt_kern {e e' : Hentry} (hk : GleicherKern e e') {cs c : Nat} :
    e'.haelt cs c ↔ e.haelt cs c := by
  obtain ⟨h1, h2, h3, h4⟩ := hk
  simp only [Hentry.haelt, Hentry.fussabdruck, h1, h2, h3, h4]

theorem ImContainer.kern {g : Geo} {rec rec' : Nat → Hentry}
    (hk : ∀ i < g.htableNbEntries, GleicherKern (rec i) (rec' i)) {i c : Nat} :
    ImContainer g rec' i c ↔ ImContainer g rec i c :=
  and_congr_right fun hi => Hentry.haelt_kern (hk i hi)

theorem Container.kern {g : Geo} {rec rec' : Nat → Hentry} (h : Container g rec)
    (hk : ∀ i < g.htableNbEntries, GleicherKern (rec i) (rec' i)) : Container g rec' where
  getrennt i j c hi hj :=
    h.getrennt i j c ((ImContainer.kern hk).mp hi) ((ImContainer.kern hk).mp hj)
  im_volumen i c hi := h.im_volumen i c ((ImContainer.kern hk).mp hi)

/-- The live containers after slot `b` took the record `e`. -/
theorem ImContainer.setzen {g : Geo} {rec rec' : Nat → Hentry} {b : Nat} {e : Hentry}
    (hb : b < g.htableNbEntries)
    (hrec : ∀ j < g.htableNbEntries, rec' j = if j = b then e else rec j) {i c : Nat} :
    ImContainer g rec' i c ↔ (i = b ∧ e.haelt g.chunksize c) ∨ (i ≠ b ∧ ImContainer g rec i c) := by
  by_cases hi : i < g.htableNbEntries
  · unfold ImContainer
    rw [hrec i hi]
    by_cases hib : i = b
    · subst hib; simp [hi]
    · simp [hi, hib]
  · refine ⟨fun h => absurd h.1 hi, ?_⟩
    rintro (⟨rfl, -⟩ | ⟨-, h, -⟩)
    · exact absurd hb hi
    · exact absurd h hi

/-! ## 2. The invariants -/

/-- The allocator keeps no chunk that is neither reserved nor in a live container. -/
def OhneLeck (v : Vol) : Prop :=
  ∀ c, v.al.belegt c = true → v.geo.reserviert c ∨ ∃ i, ImContainer v.geo v.hentry i c

/-- While mounted: the live containers keep `Container`, and the allocator keeps exactly the
    reserved chunks and theirs. -/
structure Belegung (v : Vol) : Prop where
  container : Container v.geo v.hentry
  genau : ∀ c, v.al.belegt c = true ↔ v.geo.reserviert c ∨ ∃ i, ImContainer v.geo v.hentry i c

variable (D : ShfsDefs)

/-- Between sessions: the live records of the primary region keep `Container`. -/
def PlatteBelegung (p : Platte) : Prop :=
  ∀ cs vs, loadVolCconf p.hdrCommon = some (cs, vs) → 0 < (geoVon D p).htableLen →
    Container (geoVon D p) (p.slot D)

/-- The two actions after which a live record may have lost chunks of its container to the
    allocator: an `actn_addfile` that fails after its commit, and an `actn_rmfile` of the all-zero
    digest. -/
def Riskant (H : List UInt8 → Nat) (p : Platte) (v : Vol) : Ereignis → Prop
  | .addfile j u => (actnAddfile D H u j p v).1 < 0 ∧ (actnAddfile D H u j p v).2.2.bt ≠ v.bt
  | .rmfile j => hashParse j.path v.hlen = some 0
  | _ => False

/-! ## 3. The actions -/

theorem neuerHentry_haelt (j : Token) (zeit : Nat) {d : Nat} (hd : d ≠ 0) (cchk fsize cs c : Nat) :
    (neuerHentry D j zeit d cchk fsize).haelt cs c ↔ cchk ≤ c ∧ c < cchk + divRoundUp fsize cs := by
  simp [Hentry.haelt, neuerHentry, Hentry.fussabdruck, hd]

section Aktionen

variable {D} {p₀ p : Platte} {v : Vol}

/-- A slot the bucket table holds empty has an empty record. -/
theorem SitzungInv.hash_leer (hi : SitzungInv D p₀ p v) {b : Nat} (hb : v.bt.h b = 0)
    (hbn : b < v.htableNbEntries) : (v.hentry b).hash = 0 := by
  rw [hi.digest b, if_pos hbn] at hb
  exact hb

/-- A slot the bucket table holds non-empty has a live record. -/
theorem SitzungInv.hash_belegt (hi : SitzungInv D p₀ p v) {b : Nat} (hb : v.bt.h b ≠ 0)
    (hbn : b < v.htableNbEntries) : (v.hentry b).hash ≠ 0 := by
  rw [hi.digest b, if_pos hbn] at hb
  exact hb

/-- Flags and `def_bentry` alone: the same allocator and the same record cores. -/
theorem OhneLeck.kern (ho : OhneLeck v) {v' : Vol} (hg : v'.geo = v.geo) (ha : v'.al = v.al)
    (hk : ∀ i < v.htableNbEntries, GleicherKern (v.hentry i) (v'.hentry i)) : OhneLeck v' := by
  intro c hc
  rw [ha] at hc
  rw [hg]
  simpa only [ImContainer.kern (g := v.geo) hk] using ho c hc

theorem Belegung.kern (hb : Belegung v) {v' : Vol} (hg : v'.geo = v.geo) (ha : v'.al = v.al)
    (hk : ∀ i < v.htableNbEntries, GleicherKern (v.hentry i) (v'.hentry i)) : Belegung v' := by
  refine ⟨?_, fun c => ?_⟩ <;> rw [hg]
  · exact hb.container.kern hk
  · rw [ha, hb.genau c]
    simp only [ImContainer.kern (g := v.geo) hk]

/-- `actn_cleardefault` keeps the allocator and every record's core. -/
theorem actnCleardefault_kern (w : Vol) :
    (actnCleardefault D w).2.al = w.al ∧
      ∀ i, GleicherKern (w.hentry i) ((actnCleardefault D w).2.hentry i) := by
  unfold actnCleardefault
  split
  · exact ⟨rfl, fun _ => ⟨rfl, rfl, rfl, rfl⟩⟩
  · rename_i b _
    exact ⟨rfl, bentryFlags_kern (fun x f => x &&& ~~~f) w b D.eflagDefault⟩

/-- A registration whose result is ignored adds at most its range. -/
theorem register_getD_belegt (al : Alist) (s n c : Nat)
    (h : ((shfsAlistRegister al s n).getD al).belegt c = true) :
    al.belegt c = true ∨ (s ≤ c ∧ c < s + n) := by
  unfold shfsAlistRegister at h
  split at h
  · simpa only [Option.getD_some, Bool.or_eq_true, inBereich_iff] using h
  · exact .inl h

/-- What the commit of an add to the empty slot `b` does to the live containers: the new one,
    and the others as they were. -/
theorem imContainer_eintragen {v' : Vol} {b : Nat} {e : Hentry}
    (hbn : b < v.htableNbEntries) (hleer : (v.hentry b).hash = 0)
    (hrec : ∀ j < v.htableNbEntries, v'.hentry j = if j = b then e else v.hentry j) (i c : Nat) :
    ImContainer v.geo v'.hentry i c ↔
      (i = b ∧ e.haelt v.chunksize c) ∨ ImContainer v.geo v.hentry i c := by
  rw [ImContainer.setzen hbn hrec]
  refine or_congr Iff.rfl ⟨And.right, fun h => ⟨?_, h⟩⟩
  rintro rfl
  exact h.2.1 hleer

/-- **The commit of an add keeps `OhneLeck`**: the allocator gains at most the new container. -/
theorem OhneLeck.eintragen (ho : OhneLeck v) {v' : Vol} {b cchk csize : Nat}
    {e : Hentry} (hg : v'.geo = v.geo) (hbn : b < v.htableNbEntries) (hleer : (v.hentry b).hash = 0)
    (hrec : ∀ j < v.htableNbEntries, v'.hentry j = if j = b then e else v.hentry j)
    (he : ∀ c, e.haelt v.chunksize c ↔ cchk ≤ c ∧ c < cchk + csize)
    (hal : ∀ c, v'.al.belegt c = true → v.al.belegt c = true ∨ (cchk ≤ c ∧ c < cchk + csize)) :
    OhneLeck v' := by
  intro c hc
  rw [hg]
  simp only [imContainer_eintragen hbn hleer hrec, he]
  rcases hal c hc with h | h
  · rcases ho c h with hr | ⟨i, hi'⟩
    · exact .inl hr
    · exact .inr ⟨i, .inr hi'⟩
  · exact .inr ⟨b, .inl ⟨rfl, h⟩⟩

/-- **The commit of an add with its container registered keeps `Belegung`**: the record goes to
    an empty slot, and its container is a range the allocator had free and now keeps. -/
theorem Belegung.eintragen (hb : Belegung v) {v' : Vol}
    {b cchk csize : Nat} {e : Hentry} (hg : v'.geo = v.geo) (hbn : b < v.htableNbEntries)
    (hleer : (v.hentry b).hash = 0)
    (hrec : ∀ j < v.htableNbEntries, v'.hentry j = if j = b then e else v.hentry j)
    (he : ∀ c, e.haelt v.chunksize c ↔ cchk ≤ c ∧ c < cchk + csize)
    (hf : v.al.frei cchk csize = true) (hvol : cchk + csize ≤ v.volsize + 1)
    (hal : ∀ c, v'.al.belegt c = (v.al.belegt c || inBereich cchk csize c)) : Belegung v' := by
  have hk := imContainer_eintragen hbn hleer hrec
  simp only [he] at hk
  -- a chunk of the new container is in no old one: those the allocator keeps
  have hneu : ∀ j c, cchk ≤ c ∧ c < cchk + csize → ¬ ImContainer v.geo v.hentry j c := fun j c hc hj => by
    have := (hb.genau c).mpr (.inr ⟨j, hj⟩)
    rw [Alist.frei_iff.mp hf c hc.1 hc.2] at this
    exact Bool.false_ne_true this
  refine ⟨⟨fun i j c hi' hj => ?_, fun i c hi' => ?_⟩, fun c => ?_⟩ <;> rw [hg] at *
  · rcases (hk i c).mp hi' with ⟨rfl, hc⟩ | hi' <;> rcases (hk j c).mp hj with ⟨rfl, hc'⟩ | hj
    · rfl
    · exact absurd hj (hneu j c hc)
    · exact absurd hi' (hneu i c hc')
    · exact hb.container.getrennt i j c hi' hj
  · rcases (hk i c).mp hi' with ⟨-, hc⟩ | hi'
    · simp only [Vol.geo_volsize]; omega
    · exact hb.container.im_volumen i c hi'
  · simp only [hal, Bool.or_eq_true, hb.genau, inBereich_iff, hk]
    constructor
    · rintro ((hr | ⟨i, hi'⟩) | hc)
      · exact .inl hr
      · exact .inr ⟨i, .inr hi'⟩
      · exact .inr ⟨b, .inl ⟨rfl, hc⟩⟩
    · rintro (hr | ⟨i, ⟨-, hc⟩ | hi'⟩)
      · exact .inl (.inl hr)
      · exact .inr hc
      · exact .inl (.inr ⟨i, hi'⟩)

variable {H : List UInt8 → Nat}

/-- The slot an add takes, and its records after the commit. -/
theorem SitzungInv.addfile_slot (hi : SitzungInv D p₀ p v) {u : AddfileUmwelt} {f : List UInt8}
    {buf : Chunk} {d b : Nat} {bt : Btable}
    (hdg : addfileDigest H u f v.chunksize (v.csize f) v.bt = .ok (buf, d, b, bt)) (j : Token) :
    d ≠ 0 ∧ b < v.htableNbEntries ∧ v.bt.h b = 0 ∧ bt = { v.bt with h := Function.update v.bt.h b d } ∧
      ∀ i < v.htableNbEntries, (eintragen v bt b (neuerHentry D j u.zeit d (v.cchk f) f.length)).hentry i =
        if i = b then neuerHentry D j u.zeit d (v.cchk f) f.length else v.hentry i := by
  obtain ⟨hl, ha⟩ := addfileDigest_ok H hdg
  have hd := digest_ne_null hl ha
  obtain ⟨hb0, hb1, hb2, rfl⟩ := shfsBtableAddentry_some ha
  have hbn : b < v.htableNbEntries := by
    have := hi.basis_lt d (k := b - v.bt.basis d) (by omega)
    omega
  exact ⟨hd, hbn, hb0, rfl, fun i hi' =>
    Vol.hentry_speichern _ _ fun h => hi.bentry_inj hi' hbn h⟩

/-- **`actn_addfile` keeps `OhneLeck`**, however it ends. -/
theorem OhneLeck.addfile (ho : OhneLeck v) (hi : SitzungInv D p₀ p v) {u : AddfileUmwelt}
    {j : Token} {p' : Platte} {v' : Vol} {r : Int} (h : actnAddfile D H u j p v = (r, p', v')) :
    OhneLeck v' := by
  have hg : v'.geo = v.geo := (hi.addfile h).geo.trans hi.geo.symm
  rcases actnAddfile_faelle D H h with ⟨-, -, rfl⟩ | ⟨f, buf, d, b, bt, -, -, -, hdg, -, hv⟩
  · exact ho
  obtain ⟨hd, hbn, hb0, -, hrec⟩ := hi.addfile_slot hdg j
  have hleer := hi.hash_leer hb0 hbn
  have he := neuerHentry_haelt D j u.zeit hd (v.cchk f) f.length v.chunksize
  rcases hv with ⟨-, rfl⟩ | ⟨-, rfl⟩
  · exact ho.eintragen hg hbn hleer hrec he fun c h => .inl h
  · exact ho.eintragen hg hbn hleer hrec he fun c h => register_getD_belegt v.al _ _ c h

/-- `actn_rmfile`: nothing, or slot `b` emptied and its record's range released; the record is
    live unless the digest parsed is the all-zero one. -/
theorem SitzungInv.rmfile_container (hi : SitzungInv D p₀ p v) {j : Token} {v' : Vol} {r : Int}
    (h : actnRmfile j v = (r, v')) : v' = v ∨ ∃ b, b < v.htableNbEntries ∧
      (hashParse j.path v.hlen ≠ some 0 → (v.hentry b).hash ≠ 0) ∧
      (∀ c, v'.al.belegt c =
        (v.al.belegt c && !inBereich (v.hentry b).chunk ((v.hentry b).fussabdruck v.chunksize) c)) ∧
      ∀ i c, ImContainer v.geo v'.hentry i c ↔ i ≠ b ∧ ImContainer v.geo v.hentry i c := by
  rcases actnRmfile_faelle h with ⟨-, rfl⟩ | ⟨d, b, al, hd, hbl, hal, -, hv⟩
  · exact .inl rfl
  obtain ⟨-, rfl⟩ := shfsAlistUnregister_eq hal
  obtain ⟨hbd, -, -⟩ := shfsBtableLookup_some hbl
  have hbn := hi.lookup_lt hbl
  have hrec : ∀ i < v.htableNbEntries,
      v'.hentry i = if i = b then { v.hentry b with hash := 0 } else v.hentry i := fun i hi' => by
    rw [hv]
    exact Vol.hentry_speichern _ _ fun h => hi.bentry_inj hi' hbn h
  refine .inr ⟨b, hbn, fun hn => hi.hash_belegt (fun h0 => hn (by rw [hd, ← hbd, h0])) hbn,
    fun c => by rw [hv]; rfl, fun i c => ?_⟩
  rw [ImContainer.setzen hbn hrec]
  simp [Hentry.haelt]

/-- **`actn_rmfile` keeps `OhneLeck`**: what it releases the allocator no longer keeps. -/
theorem OhneLeck.rmfile (ho : OhneLeck v) (hi : SitzungInv D p₀ p v) {j : Token} {v' : Vol}
    {r : Int} (h : actnRmfile j v = (r, v')) : OhneLeck v' := by
  have hg : v'.geo = v.geo := (hi.rmfile h).geo.trans hi.geo.symm
  rcases hi.rmfile_container h with rfl | ⟨b, -, -, hal, hk⟩
  · exact ho
  intro c hc
  simp only [hal, Bool.and_eq_true, Bool.not_eq_true'] at hc
  rw [hg]
  rcases ho c hc.1 with hr | ⟨i, hi'⟩
  · exact .inl hr
  · refine .inr ⟨i, (hk i c).mpr ⟨fun hib => ?_, hi'⟩⟩
    subst hib
    have h2 : (v.hentry i).chunk ≤ c ∧ c < (v.hentry i).chunk + (v.hentry i).fussabdruck v.chunksize :=
      hi'.2.2
    rw [inBereich_iff.mpr h2] at hc
    exact Bool.noConfusion hc.2

/-- **`actn_rmfile` of a digest other than the all-zero one keeps `Belegung`**: the range it
    releases is the container of the live record it empties, which shares no chunk with a
    reserved region or another container. -/
theorem Belegung.rmfile (hb : Belegung v) (hi : SitzungInv D p₀ p v) {j : Token} {v' : Vol}
    {r : Int} (hn : hashParse j.path v.hlen ≠ some 0) (h : actnRmfile j v = (r, v')) :
    Belegung v' := by
  have hg : v'.geo = v.geo := (hi.rmfile h).geo.trans hi.geo.symm
  rcases hi.rmfile_container h with rfl | ⟨b, hbn, hlive, hal, hk⟩
  · exact hb
  have hR : ∀ c, inBereich (v.hentry b).chunk ((v.hentry b).fussabdruck v.chunksize) c = true ↔
      ImContainer v.geo v.hentry b c := fun c => by
    rw [inBereich_iff]
    exact ⟨fun h => ⟨hbn, hlive hn, h⟩, fun h => h.2.2⟩
  refine ⟨⟨fun i j c hi' hj => ?_, fun i c hi' => ?_⟩, fun c => ?_⟩ <;> rw [hg] at *
  · exact hb.container.getrennt i j c ((hk i c).mp hi').2 ((hk j c).mp hj).2
  · exact hb.container.im_volumen i c ((hk i c).mp hi').2
  · simp only [hal, Bool.and_eq_true, Bool.not_eq_true', hb.genau, hk]
    constructor
    · rintro ⟨hr | ⟨i, hi'⟩, hc⟩
      · exact .inl hr
      · refine .inr ⟨i, fun hib => ?_, hi'⟩
        subst hib
        rw [(hR c).mpr hi'] at hc
        exact Bool.noConfusion hc
    · rintro (hr | ⟨i, hib, hi'⟩) <;> refine ⟨?_, Bool.eq_false_iff.mpr fun hc => ?_⟩
      · exact .inl hr
      · obtain ⟨-, -, h1, h2⟩ := (hR c).mp hc
        exact hi.eintraege.fussabdruck b hbn c h1 h2 hr
      · exact .inr ⟨i, hi'⟩
      · exact hib (hb.container.getrennt i b c hi' ((hR c).mp hc))

/-- **`actn_addfile` keeps `Belegung`, unless it fails after its commit.** -/
theorem Belegung.addfile (hb : Belegung v) (hi : SitzungInv D p₀ p v) {u : AddfileUmwelt}
    {j : Token} {p' : Platte} {v' : Vol} {r : Int}
    (hn : ¬ ((actnAddfile D H u j p v).1 < 0 ∧ (actnAddfile D H u j p v).2.2.bt ≠ v.bt))
    (h : actnAddfile D H u j p v = (r, p', v')) : Belegung v' := by
  rw [h] at hn
  have hg : v'.geo = v.geo := (hi.addfile h).geo.trans hi.geo.symm
  rcases actnAddfile_faelle D H h with ⟨-, -, rfl⟩ | ⟨f, buf, d, b, bt, -, hc0, -, hdg, -, hv⟩
  · exact hb
  obtain ⟨hd, hbn, hb0, rfl, hrec⟩ := hi.addfile_slot hdg j
  have he := neuerHentry_haelt D j u.zeit hd (v.cchk f) f.length v.chunksize
  rcases hv with ⟨hr, rfl⟩ | ⟨-, rfl⟩
  · -- the commit wrote the digest to slot `b`, so the bucket table changed
    refine absurd ⟨hr, fun hbt => hd ?_⟩ hn
    have := congrArg (fun bt : Btable => bt.h b) hbt
    simp only [eintragen_bt, Function.update_same] at this
    rw [this, hb0]
  · have hfrei : v.al.frei (v.cchk f) (v.csize f) = true := (shfsAlistFindFree_spec hc0).2.2
    have hvol : v.cchk f + v.csize f ≤ v.volsize + 1 := by
      have h3 := (shfsAlistFindFree_spec hc0).2.1
      rw [← hi.addfile_bereit.2.1]
      exact h3
    refine hb.eintragen hg hbn (hi.hash_leer hb0 hbn) hrec he hfrei hvol fun c => ?_
    rw [eintragen_al, Vol.reservieren, shfsAlistRegister_of_frei hfrei]
    rfl

/-- **Every action keeps `OhneLeck`.** -/
theorem OhneLeck.nachAktion (ho : OhneLeck v) (hi : SitzungInv D p₀ p v) {e : Ereignis}
    {p' : Platte} {v' : Vol} {r : Int} {a : Ausgabe} (h : aktion D H p v e = some (p', v', r, a)) :
    OhneLeck v' := by
  have hg : v'.geo = v.geo := (hi.nachAktion h).geo.trans hi.geo.symm
  cases e <;> simp only [aktion, Option.some.injEq, Prod.mk.injEq] at h
  case addfile j u =>
    obtain ⟨hp, hv, hr, -⟩ := h
    exact ho.addfile hi (Prod.ext hr (Prod.ext hp hv))
  case rmfile j =>
    obtain ⟨-, hv, hr, -⟩ := h
    exact ho.rmfile hi (Prod.ext hr hv)
  case setdefault j =>
    obtain ⟨-, hv, hr, -⟩ := h
    rcases actnSetdefault_faelle D (Prod.ext hr hv) with ⟨-, rfl⟩ | ⟨-, b, -, -, -, rfl⟩
    · exact ho
    · obtain ⟨ha, hk⟩ := actnCleardefault_kern (D := D) v
      exact ho.kern hg ha fun i _ =>
        (hk i).trans (bentryFlags_kern (· ||| ·) (actnCleardefault D v).2 b D.eflagDefault i)
  case cleardefault =>
    obtain ⟨-, rfl, -⟩ := h
    exact ho.kern hg (actnCleardefault_kern (D := D) v).1 fun i _ => (actnCleardefault_kern (D := D) v).2 i
  case catfile | ls | info =>
    obtain ⟨-, rfl, -⟩ := h
    exact ho
  case mount | umount => cases h

/-- **Every action but a `Riskant` one keeps `Belegung`.** -/
theorem Belegung.nachAktion (hb : Belegung v) (hi : SitzungInv D p₀ p v) {e : Ereignis}
    (hn : ¬ Riskant D H p v e) {p' : Platte} {v' : Vol} {r : Int} {a : Ausgabe}
    (h : aktion D H p v e = some (p', v', r, a)) : Belegung v' := by
  have hg : v'.geo = v.geo := (hi.nachAktion h).geo.trans hi.geo.symm
  cases e <;> simp only [aktion, Option.some.injEq, Prod.mk.injEq] at h
  case addfile j u =>
    obtain ⟨hp, hv, hr, -⟩ := h
    exact hb.addfile hi hn (Prod.ext hr (Prod.ext hp hv))
  case rmfile j =>
    obtain ⟨-, hv, hr, -⟩ := h
    exact hb.rmfile hi hn (Prod.ext hr hv)
  case setdefault j =>
    obtain ⟨-, hv, hr, -⟩ := h
    rcases actnSetdefault_faelle D (Prod.ext hr hv) with ⟨-, rfl⟩ | ⟨-, b, -, -, -, rfl⟩
    · exact hb
    · obtain ⟨ha, hk⟩ := actnCleardefault_kern (D := D) v
      exact hb.kern hg ha fun i _ =>
        (hk i).trans (bentryFlags_kern (· ||| ·) (actnCleardefault D v).2 b D.eflagDefault i)
  case cleardefault =>
    obtain ⟨-, rfl, -⟩ := h
    exact hb.kern hg (actnCleardefault_kern (D := D) v).1 fun i _ => (actnCleardefault_kern (D := D) v).2 i
  case catfile | ls | info =>
    obtain ⟨-, rfl, -⟩ := h
    exact hb
  case mount | umount => cases h

/-- **An action writes no chunk of a live container**: only an add writes the members, and only
    in the range the allocator had free. -/
theorem Belegung.aktion_schont (hb : Belegung v) {e : Ereignis} {p' : Platte} {v' : Vol}
    {r : Int} {a : Ausgabe} (h : aktion D H p v e = some (p', v', r, a)) {i c : Nat}
    (hc : ImContainer v.geo v.hentry i c) : p'.chunk c = p.chunk c := by
  have hreg : v.al.belegt c = true := (hb.genau c).mpr (.inr ⟨i, hc⟩)
  cases e <;> simp only [aktion, Option.some.injEq, Prod.mk.injEq] at h
  case addfile j u =>
    obtain ⟨hp, hv, hr, -⟩ := h
    rcases actnAddfile_faelle D H (Prod.ext hr (Prod.ext hp hv)) with
      ⟨-, rfl, -⟩ | ⟨f, -, -, -, -, -, hc0, -, -, hg, -⟩
    · rfl
    · refine hg.2.2 c ((Nat.lt_or_ge c _).imp_right fun h1 => Nat.le_of_not_lt fun h2 => ?_)
      rw [Alist.frei_iff.mp (shfsAlistFindFree_spec hc0).2.2 c h1 h2] at hreg
      exact Bool.noConfusion hreg
  case mount | umount => cases h
  all_goals obtain ⟨rfl, -⟩ := h; rfl

end Aktionen

/-! ## 4. Mount and unmount -/

theorem Hentry.fussabdruck_eq (e : Hentry) (cs : Nat) :
    e.fussabdruck cs = divRoundUp (e.offset + e.len) cs := by
  rw [Hentry.fussabdruck, Nat.add_comm]

/-- The registrations for the containers `[s i, s i + n i)` of the slots `l`, their results
    ignored, add at most those containers. -/
theorem foldl_register_belegt (s n : Nat → Nat) : ∀ (l : List Nat) (al : Alist) (c : Nat),
    (l.foldl (fun al i => (shfsAlistRegister al (s i) (n i)).getD al) al).belegt c = true →
    al.belegt c = true ∨ ∃ i ∈ l, s i ≤ c ∧ c < s i + n i
  | [], _, _, h => .inl h
  | i :: l, al, c, h => by
    rcases foldl_register_belegt s n l _ c h with h | ⟨k, hk, hc⟩
    · rcases register_getD_belegt al (s i) (n i) c h with h | hc
      · exact .inl h
      · exact .inr ⟨i, List.mem_cons_self _ _, hc⟩
    · exact .inr ⟨k, List.mem_cons_of_mem _ hk, hc⟩

/-- ... and all of them, when they are free at the start and pairwise disjoint. -/
theorem foldl_register_alle (s n : Nat → Nat) : ∀ (l : List Nat) (al : Alist),
    (∀ i ∈ l, ∀ c, s i ≤ c → c < s i + n i → al.belegt c = false) →
    l.Pairwise (fun i j => ∀ c, s i ≤ c → c < s i + n i → ¬ (s j ≤ c ∧ c < s j + n j)) →
    ∀ i ∈ l, ∀ c, s i ≤ c → c < s i + n i →
      (l.foldl (fun al i => (shfsAlistRegister al (s i) (n i)).getD al) al).belegt c = true
  | [], _, _, _, _, hi, _, _, _ => absurd hi (List.not_mem_nil _)
  | k :: l, al, hf, hp, i, hi, c, h1, h2 => by
    have hfk : al.frei (s k) (n k) = true := Alist.frei_iff.mpr (hf k (List.mem_cons_self _ _))
    rw [List.foldl_cons, shfsAlistRegister_of_frei hfk, Option.getD_some]
    obtain ⟨hk, hl⟩ := List.pairwise_cons.mp hp
    rcases List.mem_cons.mp hi with rfl | hi
    · exact (foldl_register_getD s n l _).2.2 c (by simp [inBereich_iff.mpr ⟨h1, h2⟩])
    · refine foldl_register_alle s n l _ (fun j hj c' h1' h2' => ?_) hl i hi c h1 h2
      simp only [Bool.or_eq_false_iff, hf j (List.mem_cons_of_mem _ hj) c' h1' h2', true_and]
      exact Bool.eq_false_iff.mpr fun hb =>
        hk j hj c' (inBereich_iff.mp hb).1 (inBereich_iff.mp hb).2 ⟨h1', h2'⟩

/-- What `load_vol_alist` registers: the reserved chunks, then the container of each live slot
    in turn, each result ignored. -/
theorem loadVolAlist_eq {w : Vol} {al : Alist} (h : loadVolAlist w = some al) :
    ∃ a : Alist, (∀ c, a.belegt c = true ↔ w.geo.reserviert c) ∧
      al = w.bt.belegte.foldl (fun al i => (shfsAlistRegister al (w.hentry i).chunk
        (divRoundUp ((w.hentry i).offset + (w.hentry i).len) w.chunksize)).getD al) a := by
  simp only [loadVolAlist, Option.bind_eq_bind, Option.bind_eq_some, pure] at h
  obtain ⟨a₀, h0, a₁, h1, a₂, h2, h3⟩ := h
  have e0 : ∀ c, a₀.belegt c = false := fun c => by
    unfold shfsAllocAlist at h0
    split at h0
    · cases h0
    · rw [← Option.some.inj h0]
  obtain ⟨-, rfl⟩ := shfsAlistRegister_eq h1
  obtain ⟨-, rfl⟩ := shfsAlistRegister_eq h2
  split at h3
  · simp only [Option.bind_eq_some, Option.some.injEq] at h3
    obtain ⟨a₃, h4, rfl⟩ := h3
    obtain ⟨-, rfl⟩ := shfsAlistRegister_eq h4
    refine ⟨_, fun c => ?_, rfl⟩
    simp [e0, inBereich, Geo.reserviert, Vol.geo, *, or_assoc]
  · simp only [Option.bind_eq_some, Option.some.injEq] at h3
    obtain ⟨a₃, rfl, rfl⟩ := h3
    refine ⟨_, fun c => ?_, rfl⟩
    simp [e0, inBereich, Geo.reserviert, Vol.geo, *]

section Sitzung

variable {D} {p₀ p p' : Platte} {v : Vol} {w : Nat → Bool}

/-- The mount ran `load_vol_alist` on the volume it built. -/
theorem mountShfs_al {u : MountUmwelt} (h : mountShfs D u p = some v) :
    (∃ cs vs, loadVolCconf p.hdrCommon = some (cs, vs)) ∧ loadVolAlist v = some v.al := by
  simp only [mountShfs, loadVolHtable, Option.bind_eq_bind, Option.bind_eq_some, pure,
    Option.some.injEq] at h
  obtain ⟨⟨cs, vs⟩, h1, ⟨epc, len⟩, -, z, -, al, hal, rfl⟩ := h
  exact ⟨⟨cs, vs, h1⟩, hal⟩

theorem SitzungInv.nbEntries (hi : SitzungInv D p₀ p v) : v.bt.nbEntries = v.htableNbEntries := by
  have h1 : v.bt.nbBkts = (geoVon D p₀).btNbBkts := congrArg Geo.btNbBkts hi.geo
  have h2 : v.bt.elPerBkt = (geoVon D p₀).btElPerBkt := congrArg Geo.btElPerBkt hi.geo
  have h3 : v.htableNbEntries = (geoVon D p₀).htableNbEntries := congrArg Geo.htableNbEntries hi.geo
  rw [Btable.nbEntries, h1, h2, h3]
  rfl

/-- The slots `load_vol_alist` walks are those of the live records. -/
theorem SitzungInv.mem_belegte (hi : SitzungInv D p₀ p v) {i : Nat} :
    i ∈ v.bt.belegte ↔ i < v.htableNbEntries ∧ (v.hentry i).hash ≠ 0 := by
  rw [Btable.mem_belegte, hi.nbEntries, hi.digest i]
  by_cases h1 : i < v.htableNbEntries <;> simp [h1]

/-- **The mount keeps no chunk that is neither reserved nor in a live container.** -/
theorem mount_ohneLeck {u : MountUmwelt} (hp : PlatteInv D p) (h : mountShfs D u p = some v) :
    OhneLeck v := by
  have hi := (mount_sitzungInv D hp h).1
  obtain ⟨a, ha, hal⟩ := loadVolAlist_eq (mountShfs_al h).2
  intro c hc
  rw [hal] at hc
  rcases foldl_register_belegt _ _ _ a c hc with hc | ⟨i, hi', h1, h2⟩
  · exact .inl ((ha c).mp hc)
  · obtain ⟨hin, hh⟩ := hi.mem_belegte.mp hi'
    exact .inr ⟨i, hin, hh, h1, by rw [Hentry.fussabdruck_eq]; exact h2⟩

/-- **The mount makes `Belegung` from `PlatteBelegung`**: every live container on disk is free
    when its turn comes, clear of the reserved regions and of the containers before it. -/
theorem mount_belegung {u : MountUmwelt} (hp : PlatteInv D p) (hpb : PlatteBelegung D p)
    (h : mountShfs D u p = some v) : Belegung v := by
  have hi := (mount_sitzungInv D hp h).1
  obtain ⟨⟨cs, vs, hc⟩, hl⟩ := mountShfs_al h
  have hn : v.htableNbEntries = (geoVon D p).htableNbEntries := congrArg Geo.htableNbEntries hi.geo
  have hcont : Container v.geo v.hentry := by
    rw [hi.geo]
    exact (hpb cs vs hc hi.len_pos').kern fun i hi' => by
      rw [mount_hentry hp h (hn ▸ hi')]
      exact ⟨rfl, rfl, rfl, rfl⟩
  obtain ⟨a, ha, hal⟩ := loadVolAlist_eq hl
  have hfrei : ∀ i ∈ v.bt.belegte, ∀ c, (v.hentry i).chunk ≤ c →
      c < (v.hentry i).chunk + divRoundUp ((v.hentry i).offset + (v.hentry i).len) v.chunksize →
      a.belegt c = false := fun i hi' c h1 h2 =>
    Bool.eq_false_iff.mpr fun hb => hi.eintraege.fussabdruck i (hi.mem_belegte.mp hi').1 c h1
      (by rw [Hentry.fussabdruck_eq]; exact h2) ((ha c).mp hb)
  have hpw := (List.nodup_range v.bt.nbEntries).filter (fun i => v.bt.h i != 0)
  refine ⟨hcont, fun c => ⟨mount_ohneLeck hp h c, ?_⟩⟩
  rw [hal]
  rintro (hr | ⟨i, hin, hh, h1, h2⟩)
  · exact (foldl_register_getD _ _ _ a).2.2 c ((ha c).mpr hr)
  · refine foldl_register_alle _ _ _ a hfrei (hpw.imp_of_mem fun {k l} hk hl hkl c' h1' h2' h3' =>
      hkl (hcont.getrennt k l c' ?_ ?_)) i (hi.mem_belegte.mpr ⟨hin, hh⟩) c h1
      (by rw [← Hentry.fussabdruck_eq]; exact h2)
    · exact ⟨(hi.mem_belegte.mp hk).1, (hi.mem_belegte.mp hk).2, h1', by rw [Hentry.fussabdruck_eq]; exact h2'⟩
    · exact ⟨(hi.mem_belegte.mp hl).1, (hi.mem_belegte.mp hl).2, h3'.1, by rw [Hentry.fussabdruck_eq]; exact h3'.2⟩

/-- **The unmount writes the cached records back**, and with them `Container`. -/
theorem Belegung.umount (hb : Belegung v) (hi : SitzungInv D p₀ p v)
    (h : umountShfs w v p = some p') : PlatteBelegung D p' := by
  intro _ _ _ _
  rw [hi.geoVon_umount h]
  exact hb.container.kern fun i hi' => by
    rw [hi.slot_umount h hi']
    exact ⟨rfl, rfl, rfl, rfl⟩

end Sitzung

/-! ## 5. Every run -/

/-- The allocator invariant over the life of a volume. -/
def SysBelegung (s : System) : Prop :=
  match s.vol with
  | none => PlatteBelegung D s.platte
  | some v => Belegung v

/-- The states the tool reaches from a fresh volume by steps none of which is `Riskant`. -/
inductive ErreichbarOhneRisiko (H : List UInt8 → Nat) : System → Prop
  | start (p : Platte) (h : Frisch D p) : ErreichbarOhneRisiko H ⟨p, none⟩
  | schritt {s s' : System} {e : Ereignis} {r : Int × Ausgabe} : ErreichbarOhneRisiko H s →
      schritt D H s e = some (s', r) → (∀ v, s.vol = some v → ¬ Riskant D H s.platte v e) →
      ErreichbarOhneRisiko H s'

variable (H : List UInt8 → Nat)

theorem ErreichbarOhneRisiko.erreichbar {s : System} (h : ErreichbarOhneRisiko D H s) :
    Erreichbar D H s := by
  induction h with
  | start p hp => exact .start p hp
  | schritt _ hs _ ih => exact .schritt ih hs

/-- A fresh volume has no live record. -/
theorem frisch_platteBelegung {p : Platte} (h : Frisch D p) : PlatteBelegung D p := by
  intro cs vs hc hlen
  have hn : ∀ i c, ¬ ImContainer (geoVon D p) (p.slot D) i c := fun i c hi => by
    obtain ⟨rfl, -⟩ := loadVolCconf_some hc
    have hleer : p.slot D i = Hentry.leer := h _ vs hc _ (geoVon_chunk_lt D hlen hi.1) _
    exact hi.2.1 (by rw [hleer]; rfl)
  exact ⟨fun i _ c hi => absurd hi (hn i c), fun i c hi => absurd hi (hn i c)⟩

/-- **Every step keeps `OhneLeck`.** -/
theorem ohneLeck_nachSchritt {s s' : System} {e : Ereignis} {r : Int × Ausgabe} (hs : SysInv D s)
    (ho : ∀ v, s.vol = some v → OhneLeck v) (h : schritt D H s e = some (s', r)) :
    ∀ v, s'.vol = some v → OhneLeck v := by
  obtain ⟨p, vol⟩ := s
  rcases schritt_faelle D H h with ⟨_, rfl, -, -, rfl, -⟩ | ⟨_, v, rfl, -, hm, rfl, -⟩ |
    ⟨v, _, _, rfl, -, -, rfl, -⟩ | ⟨v, _, v', _, _, rfl, ha, rfl, -⟩
  · exact ho
  · rintro v ⟨⟩
    exact mount_ohneLeck hs hm
  · rintro v ⟨⟩
  · obtain ⟨p₀, hi⟩ := hs
    rintro v ⟨⟩
    exact (ho v rfl).nachAktion hi ha

/-- **No leak.** In every state the tool reaches from a freshly made volume, through any actions,
    failures, cancels and umount/mount cycles, the allocator keeps no chunk that is neither in a
    reserved region (the label chunks, the primary and the backup hash table) nor in the
    container of a live hash-table record. -/
theorem belegung_ohneLeck {s : System} (h : Erreichbar D H s) :
    ∀ v, s.vol = some v → ∀ c, v.al.belegt c = true →
      v.geo.reserviert c ∨ ∃ i, ImContainer v.geo v.hentry i c := by
  induction h with
  | start p _ => rintro v ⟨⟩
  | schritt hr hs ih => exact ohneLeck_nachSchritt D H (erreichbar_sysInv D H hr) ih hs

/-- **Every step but a `Riskant` one keeps the allocator invariant.** -/
theorem SysBelegung.nachSchritt {s s' : System} {e : Ereignis} {r : Int × Ausgabe}
    (hs : SysInv D s) (hb : SysBelegung D s) (hn : ∀ v, s.vol = some v → ¬ Riskant D H s.platte v e)
    (h : schritt D H s e = some (s', r)) : SysBelegung D s' := by
  obtain ⟨p, vol⟩ := s
  rcases schritt_faelle D H h with ⟨_, rfl, -, -, rfl, -⟩ | ⟨_, v, rfl, -, hm, rfl, -⟩ |
    ⟨v, _, _, rfl, -, hu, rfl, -⟩ | ⟨v, _, _, _, _, rfl, ha, rfl, -⟩
  · exact hb
  · exact mount_belegung hs hb hm
  · obtain ⟨p₀, hi⟩ := hs
    exact Belegung.umount hb hi hu
  · obtain ⟨p₀, hi⟩ := hs
    exact Belegung.nachAktion hb hi (hn v rfl) ha

/-- The allocator invariant in every state reached without a `Riskant` step. -/
theorem ErreichbarOhneRisiko.sysBelegung {s : System} (h : ErreichbarOhneRisiko D H s) :
    SysBelegung D s := by
  induction h with
  | start p hp => exact frisch_platteBelegung D hp
  | schritt hr hs hn ih => exact ih.nachSchritt D H (erreichbar_sysInv D H hr.erreichbar) hn hs

/-- **The allocator is exact and the containers disjoint.** In every state the tool reaches from
    a freshly made volume by steps none of which is an `actn_addfile` failing after its commit or
    an `actn_rmfile` of the all-zero digest: while the volume is mounted, the allocator keeps
    exactly the chunks of the reserved regions and of the containers of the live records, no chunk
    lies in two containers, and none past chunk `volsize`; between sessions, the containers of the
    live records of the primary region on disk are disjoint and inside the volume. -/
theorem belegung_genau {s : System} (h : ErreichbarOhneRisiko D H s) :
    (∀ v, s.vol = some v → Belegung v) ∧ (s.vol = none → PlatteBelegung D s.platte) := by
  have hb := h.sysBelegung
  obtain ⟨p, vol⟩ := s
  cases vol with
  | none => exact ⟨(fun _ h => nomatch h), fun _ => hb⟩
  | some v => exact ⟨fun v' hv => (by cases hv; exact hb), fun h => nomatch h⟩

/-- The example volume after its mount and an add of the one byte `1`. -/
def system₁ : System :=
  let (_, p, v) := actnAddfile defs₀ hash₀ (glatteUmwelt [1] Chunk.null 0)
    ⟨.addobj, "a", none, none⟩ platte₀ vol₀
  ⟨p, some v⟩

/-- The example volume, mounted, is reached without a `Riskant` step. -/
theorem erreichbarOhneRisiko_vol₀ : ErreichbarOhneRisiko defs₀ hash₀ ⟨platte₀, some vol₀⟩ :=
  .schritt (.start _ frisch_platte₀) (show schritt defs₀ hash₀ ⟨platte₀, none⟩
      (.mount mountUmwelt₀) = some (⟨platte₀, some vol₀⟩, 0, .keine) by
        simp only [schritt, mountShfs_platte₀]) fun v hv => nomatch hv

/-- `system₁` is reached without a `Riskant` step. -/
theorem erreichbarOhneRisiko_system₁ : ErreichbarOhneRisiko defs₀ hash₀ system₁ :=
  .schritt erreichbarOhneRisiko_vol₀
    (e := .addfile ⟨.addobj, "a", none, none⟩ (glatteUmwelt [1] Chunk.null 0)) rfl
    fun v hv => by cases hv; exact fun h => absurd h.1 (by decide)

/-- After a mount and an add of the one byte `1`. -/
theorem belegung_genau_vol₀ :
    ∃ s, ErreichbarOhneRisiko defs₀ hash₀ s ∧ s.vol.isSome ∧
      ((∀ v, s.vol = some v → Belegung v) ∧ (s.vol = none → PlatteBelegung defs₀ s.platte)) :=
  ⟨_, erreichbarOhneRisiko_system₁, rfl, belegung_genau defs₀ hash₀ erreichbarOhneRisiko_system₁⟩

/-- **No step overwrites a live object.** From every state reached without a `Riskant` step,
    every step leaves each chunk of the container of a record live before it as it was: an add
    writes only in the range the allocator had free, the unmount only in the hash-table regions,
    and no other step writes the members. -/
theorem schritt_schont_container {s s' : System} {e : Ereignis} {r : Int × Ausgabe}
    (h : ErreichbarOhneRisiko D H s) (hs : schritt D H s e = some (s', r)) :
    ∀ v, s.vol = some v → ∀ i c, ImContainer v.geo v.hentry i c →
      s'.platte.chunk c = s.platte.chunk c := by
  have hb := h.sysBelegung
  have hsi := erreichbar_sysInv D H h.erreichbar
  obtain ⟨p, vol⟩ := s
  rintro v ⟨⟩ i c hc
  obtain ⟨p₀, hi⟩ := hsi
  rcases schritt_faelle D H hs with ⟨_, ⟨⟩, -⟩ | ⟨_, _, ⟨⟩, -⟩ | ⟨_, _, _, ⟨⟩, -, hu, rfl, -⟩ |
    ⟨_, _, _, _, _, ⟨⟩, ha, rfl, -⟩
  · exact hi.umount_rahmen hu (hi.eintraege.fussabdruck i hc.1 c hc.2.2.1 hc.2.2.2)
  · exact Belegung.aktion_schont hb ha hc

/-- After the add of `[1]`, the add of `[2]` leaves the container of `[1]`, chunk `3`, as it
    was. -/
theorem schritt_schont_container_vol₀ :
    ∃ s s' r, ErreichbarOhneRisiko defs₀ hash₀ s ∧ schritt defs₀ hash₀ s
        (.addfile ⟨.addobj, "b", none, none⟩ (glatteUmwelt [2] Chunk.null 0)) = some (s', r) ∧
      (∃ v, s.vol = some v ∧ ImContainer v.geo v.hentry 0 3) ∧
      ∀ v, s.vol = some v → ∀ i c, ImContainer v.geo v.hentry i c →
        s'.platte.chunk c = s.platte.chunk c := by
  obtain ⟨s', r, hs⟩ : ∃ s' r, schritt defs₀ hash₀ system₁
      (.addfile ⟨.addobj, "b", none, none⟩ (glatteUmwelt [2] Chunk.null 0)) = some (s', r) :=
    ⟨_, _, rfl⟩
  exact ⟨_, s', r, erreichbarOhneRisiko_system₁, hs, ⟨_, rfl, by decide⟩,
    schritt_schont_container defs₀ hash₀ erreichbarOhneRisiko_system₁ hs⟩

/-- After a mount and an add of the one byte `1`. -/
theorem belegung_ohneLeck_lauf :
    ∃ s rs, lauf defs₀ hash₀ ⟨platte₀, none⟩ [.mount mountUmwelt₀,
        .addfile ⟨.addobj, "a", none, none⟩ (glatteUmwelt [1] Chunk.null 0)] = some (s, rs) ∧
      ∀ v, s.vol = some v → ∀ c, v.al.belegt c = true →
        v.geo.reserviert c ∨ ∃ i, ImContainer v.geo v.hentry i c := by
  obtain ⟨s, rs, h⟩ : ∃ s rs, lauf defs₀ hash₀ ⟨platte₀, none⟩ [.mount mountUmwelt₀,
      .addfile ⟨.addobj, "a", none, none⟩ (glatteUmwelt [1] Chunk.null 0)] = some (s, rs) :=
    ⟨_, _, rfl⟩
  exact ⟨s, rs, h, belegung_ohneLeck defs₀ hash₀ (erreichbar_lauf defs₀ hash₀ (.start _ frisch_platte₀) h)⟩

/-! ## 6. The remove of the all-zero digest -/

/-- **A remove of the all-zero digest releases a stale container.** In every reachable state with
    a mounted volume: `lookup`, matching the full digest, answers the all-zero one with an empty
    slot `b` of its bucket, whose record still names the container of the object last removed
    from it. When the allocator keeps that whole range, `actn_rmfile` releases it and returns 0,
    and no record changes: a live record given chunks of that range since keeps them, and the
    allocator no longer does. -/
theorem rmfile_null_gibt_frei {s : System} {v : Vol} (hr : Erreichbar D H s)
    (hv : s.vol = some v) {j : Token} (hj : hashParse j.path v.hlen = some 0) {b : Nat}
    (hb : shfsBtableLookup v.bt 0 = some b)
    (hg : v.al.ganzBelegt (v.hentry b).chunk ((v.hentry b).fussabdruck v.chunksize) = true) :
    (v.hentry b).hash = 0 ∧ (actnRmfile j v).1 = 0 ∧
      (∀ i < v.htableNbEntries, (actnRmfile j v).2.hentry i = v.hentry i) ∧
      ∀ c, (v.hentry b).chunk ≤ c → c < (v.hentry b).chunk + (v.hentry b).fussabdruck v.chunksize →
        (actnRmfile j v).2.al.belegt c = false := by
  have hs := erreichbar_sysInv D H hr
  rw [SysInv, hv] at hs
  obtain ⟨p₀, hi⟩ := hs
  obtain ⟨hb0, -, -⟩ := shfsBtableLookup_some hb
  have hbn := hi.lookup_lt hb
  have hleer := hi.hash_leer hb0 hbn
  have hu : shfsAlistUnregister v.al (v.hentry b).chunk
      (divRoundUp ((v.hentry b).len + (v.hentry b).offset) v.chunksize) = some { v.al with
        belegt := fun c => v.al.belegt c && !inBereich (v.hentry b).chunk
          (divRoundUp ((v.hentry b).len + (v.hentry b).offset) v.chunksize) c } := by
    unfold shfsAlistUnregister
    exact if_pos hg
  refine ⟨hleer, by simp only [actnRmfile, hj, hb, hu], fun i hi' => ?_, fun c h1 h2 => ?_⟩
  · simp only [actnRmfile, hj, hb, hu, shfsBtableRmentry_of_some hb, Vol.hentry_markModified]
    refine (Vol.hentry_speichern _ _ fun h => hi.bentry_inj hi' hbn h).trans ?_
    split
    · subst_vars
      rw [← hleer]
    · rfl
  · have hc : inBereich (v.hentry b).chunk
        (divRoundUp ((v.hentry b).len + (v.hentry b).offset) v.chunksize) c = true :=
      inBereich_iff.mpr ⟨h1, h2⟩
    simp [actnRmfile, hj, hb, hu, hc]

/-- The run that puts the byte `127` into the chunk an earlier object left in slot `0`, then the
    remove of `00` releases it. -/
theorem rmfile_null_gibt_frei_lauf :
    ∃ s rs v, lauf defs₀ hash₀ ⟨platte₀, none⟩ [.mount mountUmwelt₀,
        .addfile ⟨.addobj, "a", none, none⟩ (glatteUmwelt [1] Chunk.null 0),
        .rmfile ⟨.rmobj, "02", none, none⟩,
        .addfile ⟨.addobj, "b", none, none⟩ (glatteUmwelt [127] Chunk.null 0)] = some (s, rs) ∧
      s.vol = some v ∧ hashParse "00" v.hlen = some 0 ∧ shfsBtableLookup v.bt 0 = some 0 ∧
      v.al.ganzBelegt (v.hentry 0).chunk ((v.hentry 0).fussabdruck v.chunksize) = true ∧
      ImContainer v.geo v.hentry 2 (v.hentry 0).chunk ∧
      (v.hentry 0).hash = 0 ∧ (actnRmfile ⟨.rmobj, "00", none, none⟩ v).1 = 0 ∧
      (∀ i < v.htableNbEntries, (actnRmfile ⟨.rmobj, "00", none, none⟩ v).2.hentry i = v.hentry i) ∧
      ∀ c, (v.hentry 0).chunk ≤ c → c < (v.hentry 0).chunk + (v.hentry 0).fussabdruck v.chunksize →
        (actnRmfile ⟨.rmobj, "00", none, none⟩ v).2.al.belegt c = false := by
  refine ⟨_, _, _, rfl, rfl, by decide, by decide, by decide, by decide, ?_⟩
  exact rmfile_null_gibt_frei defs₀ hash₀ (@erreichbar_lauf defs₀ hash₀ _ _ _ [.mount mountUmwelt₀,
    .addfile ⟨.addobj, "a", none, none⟩ (glatteUmwelt [1] Chunk.null 0),
    .rmfile ⟨.rmobj, "02", none, none⟩,
    .addfile ⟨.addobj, "b", none, none⟩ (glatteUmwelt [127] Chunk.null 0)]
      (.start _ frisch_platte₀) rfl) rfl (by decide) (by decide) (by decide)

end Minicache.Shfs
