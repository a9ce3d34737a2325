/-
  File:      Minicache/Shfs/Speicher.lean
  Subject:   The tool as an object store: the volume read as a map from digests to files, and
             every run without a `Riskant` step as a run of that map.

  What a user of `shfs_admin` sees is a content-addressed store: `-a` puts a file under a digest
  no object has, `-r` takes away the object a digest names, `-c` writes it out, and the rest
  leave the store as it is; every action that fails leaves it too. `SpeicherSchritt` says this
  of a map `Speicher` from digests to files. The volume is read as such a map by `objekt`: under
  a non-zero digest, the payload of the record that holds it, from the cache while a volume is
  mounted and from the members between sessions (`SysObjekte`).

  * `objekt_congr`, `objekt_rahmen` -- the map reads only which records hold which digest, the
    place of their payloads, and the chunks of the live containers;
  * `objekt_eintragen`, `objekt_leeren` -- the commit of an add and a remove, as updates of the
    map;
  * `objekt_aktion`, `SysObjekte.nachSchritt` -- every step from a state reached without a
    `Riskant` step is a step of the store, with the return code the tool gives;
  * **`speicher_verfeinerung`** -- every run from a freshly made volume without a `Riskant` step
    is a run of the store from the empty map;
  * `erreichbar_versatz` -- every record the tool reaches has its payload at offset 0;
  * **`catfile_objekt`** -- on such a run the export writes what the map holds, and fails where
    it holds nothing;
  * **`ls_objekte`** -- in every reachable state the listing names the digests of the map, each
    once.

  NOT here: the `Riskant` steps, after which the volume can lose an object that no remove named
  (`lauf_ueberschreibt`, Bestand.lean; `rmfile_null_gibt_frei`, Belegung.lean).
-/
import Minicache.Shfs.Haltbarkeit
import Mathlib.Data.List.Nodup

namespace Minicache.Shfs

/-! ## 1. The store -/

/-- The store the tool keeps, as its user sees it: a digest to the file stored under it. -/
abbrev Speicher := Nat → Option (List UInt8)

/-- The events that can change the store: `actn_addfile` and `actn_rmfile`. -/
def Ereignis.aendert : Ereignis → Prop
  | .addfile _ _ => True
  | .rmfile _ => True
  | _ => False

/-- **One step of the store**, with the return code of the tool: an add that returns 0 puts its
    file under a non-zero digest no object had; a remove that returns 0 takes away the object of
    the digest its token names, read as `hlen` bytes of hex digits; every other step, and every
    step that fails, leaves the store as it is. -/
inductive SpeicherSchritt (hlen : Nat) : Speicher → Ereignis → Int → Speicher → Prop
  | hinzu {m : Speicher} {j : Token} {u : AddfileUmwelt} {f : List UInt8} {d : Nat} :
      u.datei = some f → d ≠ 0 → m d = none →
      SpeicherSchritt hlen m (.addfile j u) 0 (Function.update m d (some f))
  | entfernen {m : Speicher} {j : Token} {d : Nat} {f : List UInt8} :
      hashParse j.path hlen = some d → m d = some f →
      SpeicherSchritt hlen m (.rmfile j) 0 (Function.update m d none)
  | bleibt {m : Speicher} {e : Ereignis} {r : Int} :
      ¬ (e.aendert ∧ r = 0) → SpeicherSchritt hlen m e r m

/-- The runs of the store: its steps, one after the other, with their return codes. -/
inductive SpeicherLauf (hlen : Nat) : Speicher → List (Ereignis × Int) → Speicher → Prop
  | nil {m : Speicher} : SpeicherLauf hlen m [] m
  | cons {m m' m'' : Speicher} {e : Ereignis} {r : Int} {t : List (Ereignis × Int)} :
      SpeicherSchritt hlen m e r m' → SpeicherLauf hlen m' t m'' →
      SpeicherLauf hlen m ((e, r) :: t) m''

/-! ## 2. The volume as a store -/

/-- The payload of the record `e` on the members `q`: `len` bytes from byte `offset` of its
    first chunk, the bytes `actn_catfile` writes. -/
def nutzlast (q : Platte) (cs : Nat) (e : Hentry) : List UInt8 :=
  (List.range e.len).map fun i => nutzByte q cs e.chunk (e.offset + i)

/-- **The volume read as a store**: a non-zero digest to the payload of the first slot below
    `htable_nb_entries` whose record holds it. -/
def objekt (g : Geo) (rec : Nat → Hentry) (q : Platte) (d : Nat) : Option (List UInt8) :=
  if d = 0 then none else
    ((List.range g.htableNbEntries).find? fun b => (rec b).hash == d).map fun b =>
      nutzlast q g.chunksize (rec b)

theorem find?_range_congr {p p₁ : Nat → Bool} {n : Nat} (h : ∀ i < n, p₁ i = p i) :
    (List.range n).find? p₁ = (List.range n).find? p := by
  cases hf : (List.range n).find? p with
  | none =>
    refine List.find?_range_eq_none.mpr fun i hi => ?_
    rw [h i hi]
    exact List.find?_range_eq_none.mp hf i hi
  | some k =>
    obtain ⟨h1, h2, h3⟩ := List.find?_range_eq_some.mp hf
    refine List.find?_range_eq_some.mpr ⟨(h k (List.mem_range.mp h2)).trans h1, h2, fun i hi => ?_⟩
    rw [h i (Nat.lt_trans hi (List.mem_range.mp h2))]
    exact h3 i hi

/-- The payload reads only the place of the record and the chunks of its container. -/
theorem nutzlast_rahmen {q q' : Platte} {cs : Nat} {e e' : Hentry} (hcs : 0 < cs)
    (hk : GleicherKern e e')
    (hq : ∀ c, e.chunk ≤ c → c < e.chunk + e.fussabdruck cs → q'.chunk c = q.chunk c) :
    nutzlast q' cs e' = nutzlast q cs e := by
  obtain ⟨-, h2, h3, h4⟩ := hk
  simp only [nutzlast, h2, h3, h4]
  refine List.map_congr_left fun i hi => ?_
  have hi' : (e.offset + i) / cs < e.fussabdruck cs := (lt_divRoundUp_iff hcs).mpr (by
    have := Nat.div_mul_le_self (e.offset + i) cs
    have := List.mem_range.mp hi
    omega)
  rw [nutzByte, nutzByte, hq _ (Nat.le_add_right _ _) (Nat.add_lt_add_left hi' _)]

section Objekt

variable {g : Geo} {rec rec' : Nat → Hentry} {q q' : Platte} {d b : Nat}

/-- The slot that alone holds `d ≠ 0` gives the object of `d`. -/
theorem objekt_some (hb : b < g.htableNbEntries) (hd : (rec b).hash = d) (hd0 : d ≠ 0)
    (hu : ∀ j < g.htableNbEntries, (rec j).hash = d → j = b) :
    objekt g rec q d = some (nutzlast q g.chunksize (rec b)) := by
  have hf : (List.range g.htableNbEntries).find? (fun j => (rec j).hash == d) = some b :=
    List.find?_range_eq_some.mpr ⟨by simpa using hd, List.mem_range.mpr hb, fun j hj => by
      simpa using fun h => Nat.ne_of_lt hj (hu j (Nat.lt_trans hj hb) h)⟩
  rw [objekt, if_neg hd0, hf, Option.map_some']

/-- No slot holds `d`: no object. -/
theorem objekt_none (hfrei : ∀ j < g.htableNbEntries, (rec j).hash ≠ d) :
    objekt g rec q d = none := by
  unfold objekt
  split_ifs
  · rfl
  rw [Option.map_eq_none', List.find?_range_eq_none]
  intro j hj
  simpa using hfrei j hj

/-- **The store reads only which slots hold `d`, and their payloads.** -/
theorem objekt_congr (hp : d ≠ 0 → ∀ j < g.htableNbEntries, (rec' j).hash = d ↔ (rec j).hash = d)
    (hn : ∀ j < g.htableNbEntries, (rec j).hash = d → d ≠ 0 →
      nutzlast q' g.chunksize (rec' j) = nutzlast q g.chunksize (rec j)) :
    objekt g rec' q' d = objekt g rec q d := by
  unfold objekt
  split_ifs with hd0
  · rfl
  have hf : (List.range g.htableNbEntries).find? (fun j => (rec' j).hash == d) =
      (List.range g.htableNbEntries).find? (fun j => (rec j).hash == d) :=
    find?_range_congr fun j hj => Bool.eq_iff_iff.mpr (by simpa only [beq_iff_eq] using hp hd0 j hj)
  rw [hf]
  cases hb : (List.range g.htableNbEntries).find? (fun j => (rec j).hash == d) with
  | none => rfl
  | some j =>
    obtain ⟨h1, h2, -⟩ := List.find?_range_eq_some.mp hb
    simp only [Option.map_some', hn j (List.mem_range.mp h2) (by simpa using h1) hd0]

/-- **The store is kept** where the records keep their cores and the chunks of the live
    containers their bytes. -/
theorem objekt_rahmen (hcs : 0 < g.chunksize)
    (hk : ∀ j < g.htableNbEntries, GleicherKern (rec j) (rec' j))
    (hq : ∀ j c, ImContainer g rec j c → q'.chunk c = q.chunk c) :
    objekt g rec' q' = objekt g rec q :=
  funext fun _ => objekt_congr (fun _ j hj => by rw [(hk j hj).1]) fun j hj hd hd0 =>
    nutzlast_rahmen hcs (hk j hj) fun c h1 h2 => hq j c ⟨hj, hd ▸ hd0, h1, h2⟩

/-- **The commit of an add puts its payload under its digest**: slot `b`, empty before, gets the
    record `e` with the digest `d` no slot held, and the chunks of the live containers keep their
    bytes. -/
theorem objekt_eintragen {e : Hentry} (hcs : 0 < g.chunksize) (hb : b < g.htableNbEntries)
    (hleer : (rec b).hash = 0) (hrec : ∀ j < g.htableNbEntries, rec' j = if j = b then e else rec j)
    (hd : e.hash = d) (hd0 : d ≠ 0) (hfrei : ∀ j < g.htableNbEntries, (rec j).hash ≠ d)
    (hq : ∀ j c, ImContainer g rec j c → q'.chunk c = q.chunk c) :
    objekt g rec' q' = Function.update (objekt g rec q) d (some (nutzlast q' g.chunksize e)) := by
  funext d'
  by_cases hd' : d' = d
  · subst hd'
    have he : rec' b = e := by rw [hrec b hb, if_pos rfl]
    have hu : ∀ j < g.htableNbEntries, (rec' j).hash = d' → j = b := fun j hj h => by
      by_contra hne
      rw [hrec j hj, if_neg hne] at h
      exact hfrei j hj h
    rw [Function.update_same, objekt_some hb (by rw [he, hd]) hd0 hu, he]
  · rw [Function.update_noteq hd']
    refine objekt_congr (fun hd0' j hj => ?_) fun j hj h hd0' => ?_
    · rw [hrec j hj]
      split_ifs with hjb
      · rw [hd, hjb, hleer]
        exact iff_of_false (fun h => hd' h.symm) fun h => hd0' h.symm
      · rfl
    · have hjb : j ≠ b := by rintro rfl; exact hd0' (h.symm.trans hleer)
      rw [hrec j hj, if_neg hjb]
      exact nutzlast_rahmen hcs ⟨rfl, rfl, rfl, rfl⟩ fun c h1 h2 => hq j c ⟨hj, h ▸ hd0', h1, h2⟩

/-- **The remove takes the object away**: slot `b`, the one that holds `d ≠ 0`, keeps its
    record with the empty digest. -/
theorem objekt_leeren (hb : b < g.htableNbEntries) (hd : (rec b).hash = d) (hd0 : d ≠ 0)
    (hu : ∀ j < g.htableNbEntries, (rec j).hash = d → j = b)
    (hrec : ∀ j < g.htableNbEntries, rec' j = if j = b then { rec b with hash := 0 } else rec j) :
    objekt g rec' q = Function.update (objekt g rec q) d none := by
  funext d'
  by_cases hd' : d' = d
  · subst hd'
    rw [Function.update_same]
    refine objekt_none fun j hj h => ?_
    rw [hrec j hj] at h
    split_ifs at h with hjb
    · exact hd0 h.symm
    · exact hjb (hu j hj h)
  · rw [Function.update_noteq hd']
    refine objekt_congr (fun hd0' j hj => ?_) fun j hj h _ => ?_
    · rw [hrec j hj]
      split_ifs with hjb
      · rw [hjb, hd]
        exact iff_of_false (fun h => hd0' h.symm) fun h => hd' h.symm
      · rfl
    · have hjb : j ≠ b := by rintro rfl; exact hd' (h.symm.trans hd)
      rw [hrec j hj, if_neg hjb]

end Objekt

/-! ## 3. Every action is a step of the store -/

@[simp] theorem eintragen_reservieren_hentry (w : Vol) (bt : Btable) (b : Nat) (e : Hentry)
    (cchk csize i : Nat) :
    (eintragen (w.reservieren cchk csize) bt b e).hentry i = (eintragen w bt b e).hentry i := rfl

section Aktionen

variable {D : ShfsDefs} {H : List UInt8 → Nat} {p₀ p : Platte} {v : Vol}

/-- A mounted volume reads digests of the length its configuration header on the members names. -/
theorem SitzungInv.hlen_eq (hi : SitzungInv D p₀ p v) : v.hlen = p.hdrConfig.hlen :=
  (congrArg Geo.hlen hi.geo).trans (congrArg HdrConfig.hlen hi.hdr.2).symm

/-- The slot `lookup` finds for a non-zero digest holds it, and no other slot does. -/
theorem SitzungInv.lookup_slot (hi : SitzungInv D p₀ p v) {d b : Nat} (hd0 : d ≠ 0)
    (hl : shfsBtableLookup v.bt d = some b) :
    b < v.htableNbEntries ∧ (v.hentry b).hash = d ∧
      ∀ i < v.htableNbEntries, (v.hentry i).hash = d → i = b := by
  have hbn := hi.lookup_lt hl
  have hdb : (v.hentry b).hash = d := by
    rw [← (shfsBtableLookup_some hl).1, hi.digest b, if_pos hbn]
  exact ⟨hbn, hdb, fun i hi' h =>
    hi.eintraege.eindeutig i hi' b hbn (fun h0 => hd0 (h.symm.trans h0)) (h.trans hdb.symm)⟩

/-- No slot holds a non-zero digest `lookup` does not find. -/
theorem SitzungInv.hash_frei (hi : SitzungInv D p₀ p v) {d : Nat} (hd0 : d ≠ 0)
    (hl : shfsBtableLookup v.bt d = none) : ∀ j < v.htableNbEntries, (v.hentry j).hash ≠ d :=
  fun j hj h => by
    have hbt : v.bt.h j = d := by rw [hi.digest j, if_pos hj, h]
    have := hi.lookup_h (hbt ▸ hd0)
    rw [hbt, hl] at this
    exact Option.noConfusion this

/-- The remove of the record in slot `b`: slot `b` keeps it with the empty digest, every other
    slot is as it was. -/
theorem SitzungInv.hentry_leeren (hi : SitzungInv D p₀ p v) {b : Nat} (hbn : b < v.htableNbEntries)
    (al : Alist) {i : Nat} (hi' : i < v.htableNbEntries) :
    ((({ v with al := al, bt := { v.bt with h := Function.update v.bt.h b 0 } } : Vol).storeHentry b
      { v.hentry b with hash := 0 }).markModified (v.bt.bentry b).hentryHtchunk).hentry i =
      if i = b then { v.hentry b with hash := 0 } else v.hentry i := by
  rw [Vol.hentry_markModified]
  exact Vol.hentry_speichern _ _ fun h => hi.bentry_inj hi' hbn h

/-- The file `actn_addfile` copied is the payload of the record it commits. -/
theorem nutzlast_neuerHentry {u : AddfileUmwelt} {volsize cs cchk : Nat} {f : List UInt8}
    {buf : Chunk} {p p' : Platte} (hcs0 : 0 < cs)
    (hk : kopierSchleife u volsize f cs cchk f.length f.length 0 0 buf p = .ok p')
    (j : Token) (zeit d : Nat) : nutzlast p' cs (neuerHentry D j zeit d cchk f.length) = f := by
  obtain ⟨-, hnutz⟩ := kopierSchleife_inhalt hcs0 hk
  have h0 := @map_range_getD f 0 f.length (Nat.zero_add _).le
  simp only [Nat.zero_add, List.drop_zero, List.take_length] at h0
  simp only [nutzlast, neuerHentry, Nat.zero_add]
  exact (List.map_congr_left fun i hi => hnutz i (List.mem_range.mp hi)).trans h0

/-- **Every action but a `Riskant` one is a step of the store**, with its return code. -/
theorem objekt_aktion (hb : Belegung v) (hi : SitzungInv D p₀ p v) {e : Ereignis}
    (hn : ¬ Riskant D H p v e) {p' : Platte} {v' : Vol} {r : Int} {a : Ausgabe}
    (h : aktion D H p v e = some (p', v', r, a)) :
    SpeicherSchritt v.hlen (objekt v.geo v.hentry p) e r (objekt v'.geo v'.hentry p') := by
  have hq : ∀ j c, ImContainer v.geo v.hentry j c → p'.chunk c = p.chunk c :=
    fun _ _ hc => hb.aktion_schont h hc
  rw [(hi.nachAktion h).geo.trans hi.geo.symm]
  have hbleibt : (∀ j < v.htableNbEntries, GleicherKern (v.hentry j) (v'.hentry j)) →
      ¬ (e.aendert ∧ r = 0) →
      SpeicherSchritt v.hlen (objekt v.geo v.hentry p) e r (objekt v.geo v'.hentry p') :=
    fun hk hr => by rw [objekt_rahmen hi.chunksize_pos hk hq]; exact .bleibt hr
  cases e
  case addfile j u =>
    simp only [aktion, Option.some.injEq, Prod.mk.injEq] at h
    obtain ⟨hp, hv, hr, -⟩ := h
    have ha : actnAddfile D H u j p v = (r, p', v') := Prod.ext hr (Prod.ext hp hv)
    rw [Riskant, ha] at hn
    by_cases hr0 : r = 0
    · subst hr0
      obtain ⟨f, buf, d, b, bt, hf, hc0, -, hdg, hk, rfl⟩ := actnAddfile_null D H ha
      obtain ⟨hd, hbn, hb0, -, hrec⟩ := hi.addfile_slot hdg j
      have hcs0 := (Vol.cchk_pos hc0).1
      have hfrei := hi.hash_frei hd (addfileDigest_ok H hdg).1
      rw [objekt_eintragen (g := v.geo) hcs0 hbn (hi.hash_leer hb0 hbn)
          (fun i hi' => (eintragen_reservieren_hentry _ _ _ _ _ _ i).trans (hrec i hi')) rfl hd hfrei
          hq, Vol.geo_chunksize, nutzlast_neuerHentry hcs0 hk]
      exact .hinzu hf hd (objekt_none hfrei)
    rcases actnAddfile_faelle D H ha with
      ⟨-, -, rfl⟩ | ⟨f, buf, d, b, bt, -, -, -, hdg, -, ⟨hr1, rfl⟩ | ⟨hr1, -⟩⟩
    · exact hbleibt (fun _ _ => GleicherKern.of_eq rfl) fun h => hr0 h.2
    · -- a failure after the commit changes the bucket table: a `Riskant` step
      obtain ⟨hd, -, hb0, hbt, -⟩ := hi.addfile_slot hdg j
      refine absurd ⟨hr1, fun hbt' => hd ?_⟩ hn
      have := congrFun (congrArg Btable.h hbt') b
      simpa only [eintragen_bt, hbt, Function.update_same, hb0] using this
    · exact absurd hr1 hr0
  case rmfile j =>
    simp only [aktion, Option.some.injEq, Prod.mk.injEq] at h
    obtain ⟨rfl, hv, hr, -⟩ := h
    rcases actnRmfile_faelle (Prod.ext hr hv) with ⟨rfl, rfl⟩ | ⟨d, b, al, hd, hbl, -, rfl, rfl⟩
    · exact hbleibt (fun _ _ => GleicherKern.of_eq rfl) fun h => by omega
    have hd0 : d ≠ 0 := fun h0 => hn (h0 ▸ hd : hashParse j.path v.hlen = some 0)
    obtain ⟨hbn, hdb, hu⟩ := hi.lookup_slot hd0 hbl
    rw [objekt_leeren (g := v.geo) hbn hdb hd0 hu fun i hi' => hi.hentry_leeren hbn al hi']
    exact .entfernen hd (objekt_some (g := v.geo) hbn hdb hd0 hu)
  all_goals
    exact hbleibt (fun i _ => aktion_kern_sonst H h (fun _ _ h => nomatch h)
      (fun _ h => nomatch h) i) fun h => h.1

end Aktionen

/-! ## 4. Every run is a run of the store -/

variable (D : ShfsDefs) (H : List UInt8 → Nat)

/-- The store a system holds: from the cache while a volume is mounted, from the primary
    hash-table region of the members between sessions. -/
def SysObjekte (s : System) : Speicher :=
  match s.vol with
  | none => objekt (geoVon D s.platte) (s.platte.slot D) s.platte
  | some v => objekt v.geo v.hentry s.platte

/-- The runs of the tool none of whose steps is `Riskant`, with their events and return
    codes. -/
inductive SpurOhneRisiko : System → List (Ereignis × Int) → System → Prop
  | nil {s : System} : SpurOhneRisiko s [] s
  | cons {s s' s'' : System} {e : Ereignis} {r : Int × Ausgabe} {t : List (Ereignis × Int)} :
      schritt D H s e = some (s', r) → (∀ v, s.vol = some v → ¬ Riskant D H s.platte v e) →
      SpurOhneRisiko s' t s'' → SpurOhneRisiko s ((e, r.1) :: t) s''

/-- No step changes the configuration header, which names the digest length. -/
theorem schritt_hdrConfig {s s' : System} {e : Ereignis} {r : Int × Ausgabe} (hsi : SysInv D s)
    (hs : schritt D H s e = some (s', r)) : s'.platte.hdrConfig = s.platte.hdrConfig := by
  obtain ⟨p, vol⟩ := s
  rcases schritt_faelle D H hs with ⟨_, -, -, -, rfl, -⟩ | ⟨_, _, -, -, -, rfl, -⟩ |
    ⟨v, _, _, rfl, -, hu, rfl, -⟩ | ⟨v, _, _, _, _, rfl, hac, rfl, -⟩
  · rfl
  · rfl
  · obtain ⟨p₀, hi⟩ := hsi
    exact (hi.umount hu).2.1
  · obtain ⟨p₀, hi⟩ := hsi
    exact (hi.nachAktion hac).hdr.2.trans hi.hdr.2.symm

/-- **Every step from a state reached without a `Riskant` step, itself not `Riskant`, is a step
    of the store.** -/
theorem SysObjekte.nachSchritt {s s' : System} {e : Ereignis} {r : Int × Ausgabe}
    (h : ErreichbarOhneRisiko D H s) (hn : ∀ v, s.vol = some v → ¬ Riskant D H s.platte v e)
    (hs : schritt D H s e = some (s', r)) :
    SpeicherSchritt s.platte.hdrConfig.hlen (SysObjekte D s) e r.1 (SysObjekte D s') := by
  have hb := h.sysBelegung
  have hsi := erreichbar_sysInv D H h.erreichbar
  obtain ⟨p, vol⟩ := s
  rcases schritt_faelle D H hs with ⟨_, rfl, rfl, -, rfl, -⟩ | ⟨_, v, rfl, rfl, hm, rfl, -⟩ |
    ⟨v, _, p', rfl, rfl, hu, rfl, -⟩ | ⟨v, p', v', _, _, rfl, hac, rfl, rfl⟩
  · exact .bleibt fun h => h.1
  · have hi := (mount_sitzungInv D hsi hm).1
    have hn' : v.htableNbEntries = (geoVon D p).htableNbEntries :=
      congrArg Geo.htableNbEntries hi.geo
    have hcs : 0 < (geoVon D p).chunksize := by rw [← hi.geo]; exact hi.chunksize_pos
    show SpeicherSchritt _ _ _ _ (objekt v.geo v.hentry p)
    rw [hi.geo, objekt_rahmen hcs (fun i hi' => GleicherKern.of_eq (mount_hentry hsi hm (hn' ▸ hi')))
      fun _ _ _ => rfl]
    exact .bleibt fun h => h.1
  · obtain ⟨p₀, hi⟩ := hsi
    show SpeicherSchritt _ (objekt v.geo v.hentry p) _ _ (objekt (geoVon D p') (p'.slot D) p')
    rw [hi.geoVon_umount hu, objekt_rahmen hi.chunksize_pos
      (fun i hi' => GleicherKern.of_eq (hi.slot_umount hu hi'))
      fun i c hc => hi.umount_rahmen hu (hi.eintraege.fussabdruck i hc.1 c hc.2.2.1 hc.2.2.2)]
    exact .bleibt fun h => h.1
  · obtain ⟨p₀, hi⟩ := hsi
    rw [← hi.hlen_eq]
    exact objekt_aktion hb hi (hn v rfl) hac

/-- Along a run without a `Riskant` step the store runs as the tool does. -/
theorem SpurOhneRisiko.speicherLauf {s s' : System} {t : List (Ereignis × Int)}
    (ht : SpurOhneRisiko D H s t s') :
    ErreichbarOhneRisiko D H s →
      SpeicherLauf s.platte.hdrConfig.hlen (SysObjekte D s) t (SysObjekte D s') := by
  induction ht with
  | nil => exact fun _ => .nil
  | cons hs hn _ ih =>
    intro h
    refine .cons (SysObjekte.nachSchritt D H h hn hs) ?_
    rw [← schritt_hdrConfig D H (erreichbar_sysInv D H h.erreichbar) hs]
    exact ih (.schritt h hs hn)

/-- A freshly made volume whose configuration loads holds no object. -/
theorem frisch_objekte {p : Platte} (hp : Frisch D p) {cs vs : Nat}
    (hc : loadVolCconf p.hdrCommon = some (cs, vs)) (hlen : 0 < (geoVon D p).htableLen) :
    SysObjekte D ⟨p, none⟩ = fun _ => none := by
  funext d
  by_cases hd0 : d = 0
  · exact if_pos hd0
  refine objekt_none fun i hi h => hd0 ?_
  obtain ⟨rfl, -⟩ := loadVolCconf_some hc
  have hleer : p.slot D i = Hentry.leer := hp _ vs hc _ (geoVon_chunk_lt D hlen hi) _
  rw [← h, hleer]
  rfl

/-- **The tool refines a content-addressed store.** Every run from a freshly made volume whose
    configuration loads, none of whose steps is an `actn_addfile` that fails after its commit or
    an `actn_rmfile` of the all-zero digest -- through any actions, failures, cancels and
    umount/mount cycles -- is a run of the store from the empty map, step by step and with the
    return codes the tool gives: every add that returns 0 puts its file under a non-zero digest
    no object had, every remove that returns 0 takes away the object of the digest its token
    names, and nothing else changes what the volume holds. -/
theorem speicher_verfeinerung {p : Platte} (hp : Frisch D p) {cs vs : Nat}
    (hc : loadVolCconf p.hdrCommon = some (cs, vs)) (hlen : 0 < (geoVon D p).htableLen)
    {t : List (Ereignis × Int)} {s : System} (ht : SpurOhneRisiko D H ⟨p, none⟩ t s) :
    SpeicherLauf p.hdrConfig.hlen (fun _ => none) t (SysObjekte D s) := by
  rw [← frisch_objekte D hp hc hlen]
  exact ht.speicherLauf D H (.start p hp)

/-- The example volume: its mount and an add of the one byte `1`. -/
theorem speicher_verfeinerung_platte₀ :
    Frisch defs₀ platte₀ ∧ loadVolCconf platte₀.hdrCommon = some (4096, 7) ∧
      0 < (geoVon defs₀ platte₀).htableLen ∧
      SpurOhneRisiko defs₀ hash₀ ⟨platte₀, none⟩ [(.mount mountUmwelt₀, 0),
        (.addfile ⟨.addobj, "a", none, none⟩ (glatteUmwelt [1] Chunk.null 0), 0)] system₁ ∧
      SpeicherLauf platte₀.hdrConfig.hlen (fun _ => none) [(.mount mountUmwelt₀, 0),
        (.addfile ⟨.addobj, "a", none, none⟩ (glatteUmwelt [1] Chunk.null 0), 0)]
        (SysObjekte defs₀ system₁) := by
  have hm : schritt defs₀ hash₀ ⟨platte₀, none⟩ (.mount mountUmwelt₀) =
      some (⟨platte₀, some vol₀⟩, 0, .keine) := by simp only [schritt, mountShfs_platte₀]
  have ha : schritt defs₀ hash₀ ⟨platte₀, some vol₀⟩
      (.addfile ⟨.addobj, "a", none, none⟩ (glatteUmwelt [1] Chunk.null 0)) =
      some (system₁, 0, .keine) := rfl
  have ht := SpurOhneRisiko.cons hm (fun v hv => nomatch hv)
    (.cons ha (fun v hv => by cases hv; exact fun h => absurd h.1 (by decide)) .nil)
  exact ⟨frisch_platte₀, rfl, by decide, ht,
    speicher_verfeinerung defs₀ hash₀ frisch_platte₀ rfl (by decide) ht⟩

/-! ## 5. What the export shows -/

/-- Every record of the table has its payload from the start of its first chunk: the records the
    tool writes are those of `actn_addfile`, with `offset` 0, and the emptied ones. -/
def VersatzNull (g : Geo) (rec : Nat → Hentry) : Prop :=
  ∀ b < g.htableNbEntries, (rec b).offset = 0

/-- `VersatzNull` for the cache while a volume is mounted; between sessions, for the primary
    hash-table region of the members, when their configuration loads. -/
def SysVersatz (s : System) : Prop :=
  match s.vol with
  | none => ∀ cs vs, loadVolCconf s.platte.hdrCommon = some (cs, vs) →
      0 < (geoVon D s.platte).htableLen → VersatzNull (geoVon D s.platte) (s.platte.slot D)
  | some v => VersatzNull v.geo v.hentry

section Versatz

variable {D H} {p₀ p : Platte} {v : Vol}

/-- Every action keeps `VersatzNull`, however it ends. -/
theorem VersatzNull.nachAktion (ho : VersatzNull v.geo v.hentry) (hi : SitzungInv D p₀ p v)
    {e : Ereignis} {p' : Platte} {v' : Vol} {r : Int} {a : Ausgabe}
    (h : aktion D H p v e = some (p', v', r, a)) : VersatzNull v'.geo v'.hentry := by
  rw [(hi.nachAktion h).geo.trans hi.geo.symm]
  have hkern : (∀ i < v.htableNbEntries, GleicherKern (v.hentry i) (v'.hentry i)) →
      VersatzNull v.geo v'.hentry := fun hk i hi' => (hk i hi').2.2.1.trans (ho i hi')
  have hsetzen : ∀ b (E : Hentry), E.offset = 0 →
      (∀ i < v.htableNbEntries, v'.hentry i = if i = b then E else v.hentry i) →
      VersatzNull v.geo v'.hentry := fun b E hE hrec i hi' => by
    rw [hrec i hi']
    split_ifs
    exacts [hE, ho i hi']
  cases e
  case addfile j u =>
    simp only [aktion, Option.some.injEq, Prod.mk.injEq] at h
    obtain ⟨hp, hv, hr, -⟩ := h
    rcases actnAddfile_faelle D H (Prod.ext hr (Prod.ext hp hv)) with
      ⟨-, -, rfl⟩ | ⟨f, buf, d, b, bt, -, -, -, hdg, -, ⟨-, rfl⟩ | ⟨-, rfl⟩⟩
    · exact ho
    · exact hsetzen b _ rfl (hi.addfile_slot hdg j).2.2.2.2
    · exact hsetzen b _ rfl fun i hi' =>
        (eintragen_reservieren_hentry _ _ _ _ _ _ i).trans ((hi.addfile_slot hdg j).2.2.2.2 i hi')
  case rmfile j =>
    simp only [aktion, Option.some.injEq, Prod.mk.injEq] at h
    obtain ⟨-, hv, hr, -⟩ := h
    rcases actnRmfile_faelle (Prod.ext hr hv) with ⟨-, rfl⟩ | ⟨d, b, al, -, hbl, -, -, rfl⟩
    · exact ho
    · have hbn := hi.lookup_lt hbl
      exact hsetzen b { v.hentry b with hash := 0 } (ho b hbn) fun i hi' => hi.hentry_leeren hbn al hi'
  all_goals
    exact hkern fun i _ => aktion_kern_sonst H h (fun _ _ h => nomatch h) (fun _ h => nomatch h) i

/-- Every step keeps `SysVersatz`. -/
theorem SysVersatz.nachSchritt {s s' : System} {e : Ereignis} {r : Int × Ausgabe}
    (hsi : SysInv D s) (ho : SysVersatz D s) (hs : schritt D H s e = some (s', r)) :
    SysVersatz D s' := by
  obtain ⟨p, vol⟩ := s
  rcases schritt_faelle D H hs with ⟨_, rfl, -, -, rfl, -⟩ | ⟨_, v, rfl, -, hm, rfl, -⟩ |
    ⟨v, _, p', rfl, -, hu, rfl, -⟩ | ⟨v, _, _, _, _, rfl, hac, rfl, -⟩
  · exact ho
  · have hi := (mount_sitzungInv D hsi hm).1
    obtain ⟨⟨cs, vs, hc⟩, -⟩ := mountShfs_al hm
    have hn : v.htableNbEntries = (geoVon D p).htableNbEntries :=
      congrArg Geo.htableNbEntries hi.geo
    intro i hi'
    rw [mount_hentry hsi hm hi']
    exact ho cs vs hc hi.len_pos' i (hn ▸ hi')
  · obtain ⟨p₀, hi⟩ := hsi
    intro _ _ _ _
    rw [hi.geoVon_umount hu]
    intro i hi'
    rw [hi.slot_umount hu hi']
    exact ho i hi'
  · obtain ⟨p₀, hi⟩ := hsi
    exact VersatzNull.nachAktion ho hi hac

/-- **Every record the tool reaches has offset 0.** -/
theorem erreichbar_versatz {s : System} (h : Erreichbar D H s) : SysVersatz D s := by
  induction h with
  | start p hp =>
    intro cs vs hc hlen i hi
    obtain ⟨rfl, -⟩ := loadVolCconf_some hc
    have hleer : p.slot D i = Hentry.leer := hp _ vs hc _ (geoVon_chunk_lt D hlen hi) _
    rw [hleer]
    rfl
  | schritt hr hs ih => exact ih.nachSchritt (erreichbar_sysInv D H hr) hs

end Versatz

/-- **The export loop writes the payload** of a record whose payload starts in its first chunk
    and whose chunks lie in the volume, in a world where every chunk read and every `write`
    succeed. -/
theorem catSchleife_nutzlast {uc : CatUmwelt} {volsize cs : Nat} {q : Platte} {e : Hentry}
    (hcs : cs < 2 ^ 64) (hoff : e.offset < cs)
    (hvol : ∀ k < e.fussabdruck cs, e.chunk + k ≤ volsize)
    (hio : ∀ k, uc.lies k = true ∧ uc.schreib k = true) :
    ∃ rest, catSchleife uc volsize cs q (e.len + 1) 0 e.chunk e.offset e.len [] = (0, rest) ∧
      rest.flatten = nutzlast q cs e := by
  rcases Nat.eq_zero_or_pos e.len with hl | hl
  · refine ⟨[], ?_, ?_⟩
    · rw [hl]
      rfl
    · simp [nutzlast, hl]
  obtain ⟨rest, h1, -, h3⟩ := catSchleife_lauf uc volsize cs e.chunk (p := q) hcs (e.len + 1) 0
    e.offset e.len [] hoff hl (Nat.lt_succ_self _) fun k _ hk =>
      ⟨hvol k (by simpa [Hentry.fussabdruck, Nat.add_comm] using hk), hio k⟩
  refine ⟨rest, by simpa only [Nat.add_zero, List.nil_append] using h1, h3.trans ?_⟩
  simp only [nutzlast, Nat.zero_mul, Nat.zero_add]

/-- **The export shows what the store holds.** In every state reached from a freshly made volume
    without a `Riskant` step, with a volume mounted whose chunk size fits `uint64_t`, for every
    token whose digest string parses to a non-zero digest `d`: when the volume holds no object
    under `d`, `actn_catfile` returns -1, in every world; when it holds the file `f`, the export
    returns 0 and writes the bytes of `f`, in a world where `malloc`, every chunk read and every
    `write` succeed. -/
theorem catfile_objekt {s : System} (h : ErreichbarOhneRisiko D H s) {v : Vol}
    (hv : s.vol = some v) (hcs : v.chunksize < 2 ^ 64) {j : Token} {d : Nat}
    (hj : hashParse j.path v.hlen = some d) (hd0 : d ≠ 0) :
    (∀ uc : CatUmwelt, SysObjekte D s d = none → (actnCatfile uc j s.platte v).1 = -1) ∧
    ∀ (f : List UInt8) (uc : CatUmwelt), SysObjekte D s d = some f → uc.buf.isSome →
      (∀ k, uc.lies k = true ∧ uc.schreib k = true) →
      (actnCatfile uc j s.platte v).1 = 0 ∧ (actnCatfile uc j s.platte v).2.flatten = f := by
  obtain ⟨p, vol⟩ := s
  cases hv
  have hb : Belegung v := h.sysBelegung
  obtain ⟨p₀, hi⟩ := erreichbar_sysInv D H h.erreichbar
  have ho : VersatzNull v.geo v.hentry := erreichbar_versatz h.erreichbar
  show (∀ uc : CatUmwelt, objekt v.geo v.hentry p d = none → _) ∧
    ∀ f uc, objekt v.geo v.hentry p d = some f → _
  cases hl : shfsBtableLookup v.bt d with
  | none =>
    rw [objekt_none (hi.hash_frei hd0 hl)]
    refine ⟨fun uc _ => ?_, fun f uc hf => Option.noConfusion hf⟩
    simp only [actnCatfile, hj, hl]
    split <;> rfl
  | some b =>
    obtain ⟨hbn, hdb, hu⟩ := hi.lookup_slot hd0 hl
    rw [objekt_some (g := v.geo) hbn hdb hd0 hu]
    refine ⟨fun uc hn => Option.noConfusion hn, fun f uc hf hbuf hio => ?_⟩
    obtain rfl := Option.some.inj hf
    obtain ⟨x, hx⟩ := Option.isSome_iff_exists.mp hbuf
    have hoff : (v.hentry b).offset < v.chunksize := by rw [ho b hbn]; exact hi.chunksize_pos
    obtain ⟨rest, h1, h2⟩ := catSchleife_nutzlast (q := p) hcs hoff (fun k hk =>
      Nat.lt_succ_iff.mp (hb.container.im_volumen b _
        ⟨hbn, hdb ▸ hd0, Nat.le_add_right _ _, Nat.add_lt_add_left hk _⟩ :
          (v.hentry b).chunk + k < v.volsize + 1)) hio
    rw [Vol.geo_volsize] at h1
    simp only [actnCatfile, hx, hj, hl]
    rw [h1]
    exact ⟨rfl, h2⟩

/-- After the add of the one byte `1`: the store holds `[1]` under the digest `2`, the string
    `02`. -/
theorem catfile_objekt_system₁ :
    ∃ v, ErreichbarOhneRisiko defs₀ hash₀ system₁ ∧ system₁.vol = some v ∧
      v.chunksize < 2 ^ 64 ∧ hashParse (Token.path ⟨.catobj, "02", none, none⟩) v.hlen = some 2 ∧
      (2 : Nat) ≠ 0 ∧ SysObjekte defs₀ system₁ 2 = some [1] ∧
      ((∀ uc : CatUmwelt, SysObjekte defs₀ system₁ 2 = none →
          (actnCatfile uc ⟨.catobj, "02", none, none⟩ system₁.platte v).1 = -1) ∧
        ∀ (f : List UInt8) (uc : CatUmwelt), SysObjekte defs₀ system₁ 2 = some f →
          uc.buf.isSome → (∀ k, uc.lies k = true ∧ uc.schreib k = true) →
          (actnCatfile uc ⟨.catobj, "02", none, none⟩ system₁.platte v).1 = 0 ∧
          (actnCatfile uc ⟨.catobj, "02", none, none⟩ system₁.platte v).2.flatten = f) :=
  ⟨_, erreichbarOhneRisiko_system₁, rfl, by decide, by decide, by decide, by decide,
    catfile_objekt defs₀ hash₀ erreichbarOhneRisiko_system₁ rfl (by decide) (by decide) (by decide)⟩

/-! ## 6. What the listing shows -/

theorem objekt_isSome {g : Geo} {rec : Nat → Hentry} {q : Platte} {d : Nat} :
    (objekt g rec q d).isSome ↔ d ≠ 0 ∧ ∃ i < g.htableNbEntries, (rec i).hash = d := by
  unfold objekt
  split_ifs with hd0
  · simp [hd0]
  · simp [List.find?_isSome, hd0]

/-- **The listing names the objects of the store, each once.** In every reachable state with a
    mounted volume, the digests of the rows `actn_ls` prints are pairwise distinct, and they are
    exactly the digests under which the volume holds an object. -/
theorem ls_objekte {s : System} (h : Erreichbar D H s) {v : Vol} (hv : s.vol = some v) :
    ((actnLs D v).2.map LsZeile.hash).Nodup ∧
      ∀ d, d ∈ (actnLs D v).2.map LsZeile.hash ↔ (SysObjekte D s d).isSome := by
  obtain ⟨p, vol⟩ := s
  cases hv
  obtain ⟨p₀, hi⟩ := erreichbar_sysInv D H h
  have hmap : (actnLs D v).2.map LsZeile.hash = v.bt.belegte.map v.bt.h := by
    simp only [actnLs, List.map_map]
    rfl
  have hh : ∀ i < v.htableNbEntries, v.bt.h i = (v.hentry i).hash := fun i hi' => by
    rw [hi.digest i, if_pos hi']
  rw [hmap]
  refine ⟨((List.nodup_range _).filter _).map_on fun i hi' j hj hij => ?_, fun d => ?_⟩
  · obtain ⟨hin, hh0⟩ := hi.mem_belegte.mp hi'
    obtain ⟨hjn, -⟩ := hi.mem_belegte.mp hj
    rw [hh i hin, hh j hjn] at hij
    exact hi.eintraege.eindeutig i hin j hjn hh0 hij
  · show _ ↔ (objekt v.geo v.hentry p d).isSome
    rw [objekt_isSome, List.mem_map]
    constructor
    · rintro ⟨i, hi', rfl⟩
      obtain ⟨hin, hh0⟩ := hi.mem_belegte.mp hi'
      exact ⟨by rw [hh i hin]; exact hh0, i, hin, (hh i hin).symm⟩
    · rintro ⟨hd0, i, hin, rfl⟩
      exact ⟨i, hi.mem_belegte.mpr ⟨hin, hd0⟩, hh i hin⟩

/-- After the add of the one byte `1`: one row, with the digest `2`. -/
theorem ls_objekte_system₁ :
    ∃ v, Erreichbar defs₀ hash₀ system₁ ∧ system₁.vol = some v ∧
      (actnLs defs₀ v).2.map LsZeile.hash = [2] ∧
      (((actnLs defs₀ v).2.map LsZeile.hash).Nodup ∧
        ∀ d, d ∈ (actnLs defs₀ v).2.map LsZeile.hash ↔ (SysObjekte defs₀ system₁ d).isSome) :=
  ⟨_, erreichbarOhneRisiko_system₁.erreichbar, rfl, by decide,
    ls_objekte defs₀ hash₀ erreichbarOhneRisiko_system₁.erreichbar rfl⟩

end Minicache.Shfs
