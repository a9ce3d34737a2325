/-
  File:      Minicache/Shfs/Haltbarkeit.lean
  Subject:   What an add stored stays stored, over every run that follows it without a `Riskant`
             step and without a remove of its digest.

  An `actn_addfile` that returns 0 leaves a live record with the file's digest, offset 0 and the
  file's length, and the file's bytes in its container (`addfile_abgelegt`). Every later step
  keeps that (`SysAbgelegt.nachSchritt`): an add takes an empty slot and writes only the range
  the allocator had free (`Belegung.aktion_schont`), a remove of another digest empties another
  slot, a flag change touches the flags only, the unmount writes the records back and no chunk
  outside the hash-table regions, a mount reads the records in again. At the end `lookup` finds
  the record and the export loop gives the bytes back (`Abgelegt.catfile`).

  * `Abgelegt`, `SysAbgelegt` -- the object at slot `b`: digest, place, length, bytes; in the
    cache while mounted, on the members between sessions;
  * `Entfernt`, `Pfad` -- the runs after the add: no `Riskant` step, no remove of the digest
    that returns 0;
  * `aktion_kern_sonst` -- the actions that neither add nor remove keep the core of every
    record;
  * **`addfile_haltbar`** -- at the end of every such run, mounted, the export of the digest
    gives the file back;
  * **`wiedereinhaengen_identisch`** -- after such runs an unmount and a new mount rebuild the
    bucket table and the allocator the session ended with.

  NOT here: runs with a `Riskant` step, after which a later add may overwrite the object
  (`lauf_ueberschreibt`, Bestand.lean).
-/
import Minicache.Shfs.Belegung
import Minicache.Shfs.Rundreise

namespace Minicache.Shfs

/-! ## 1. A stored object -/

/-- The file `f` stored under the digest `d` at slot `b` of the records `rec`, with geometry `g`,
    on the members `q`: a live record with that digest, its payload from offset 0 of its first
    chunk with the length of `f`, its container inside the volume, and the payload bytes those
    of `f`. -/
structure Abgelegt (g : Geo) (rec : Nat → Hentry) (q : Platte) (d b : Nat) (f : List UInt8) :
    Prop where
  slot : b < g.htableNbEntries
  live : d ≠ 0
  hash : (rec b).hash = d
  offset : (rec b).offset = 0
  len : (rec b).len = f.length
  nicht_leer : 0 < f.length
  chunksize_pos : 0 < g.chunksize
  chunksize_lt : g.chunksize < 2 ^ 64
  im_volumen : ∀ k < divRoundUp f.length g.chunksize, (rec b).chunk + k ≤ g.volsize
  bytes : ∀ i < f.length, nutzByte q g.chunksize (rec b).chunk i = f.getD i 0

theorem GleicherKern.of_eq {e e' : Hentry} (h : e' = e) : GleicherKern e e' := by
  subst h
  exact ⟨rfl, rfl, rfl, rfl⟩

section Abgelegt

variable {g g' : Geo} {rec rec' : Nat → Hentry} {q q' : Platte} {d b : Nat} {f : List UInt8}

/-- The chunks of the object are those of the live container of slot `b`. -/
theorem Abgelegt.imContainer (ha : Abgelegt g rec q d b f) {k : Nat}
    (hk : k < divRoundUp f.length g.chunksize) : ImContainer g rec b ((rec b).chunk + k) := by
  refine ⟨ha.slot, fun h0 => ha.live (ha.hash.symm.trans h0), Nat.le_add_right _ _, ?_⟩
  rw [Hentry.fussabdruck, ha.len, ha.offset, Nat.add_zero]
  exact Nat.add_lt_add_left hk _

/-- **What keeps an object stored**: the same geometry, the same core of its record, and the
    chunks of its container as they were. -/
theorem Abgelegt.uebertragen (ha : Abgelegt g rec q d b f) (hg : g' = g)
    (hk : GleicherKern (rec b) (rec' b)) (hq : ∀ c, ImContainer g rec b c → q'.chunk c = q.chunk c) :
    Abgelegt g' rec' q' d b f := by
  obtain ⟨h1, h2, h3, h4⟩ := hk
  subst hg
  refine ⟨ha.slot, ha.live, h1.trans ha.hash, h3.trans ha.offset, h4.trans ha.len, ha.nicht_leer,
    ha.chunksize_pos, ha.chunksize_lt, fun k hk => h2 ▸ ha.im_volumen k hk, fun i hi => ?_⟩
  have hq' : i / g'.chunksize < divRoundUp f.length g'.chunksize :=
    (lt_divRoundUp_iff ha.chunksize_pos).mpr (Nat.lt_of_le_of_lt (Nat.div_mul_le_self i _) hi)
  rw [h2, ← ha.bytes i hi, nutzByte, nutzByte, hq _ (ha.imContainer hq')]

variable {D : ShfsDefs} {p₀ : Platte} {v : Vol}

/-- **A stored object is exported whole**: the export of its digest finds its slot and writes its
    bytes, in a world where `malloc`, every chunk read and every `write` succeed. -/
theorem Abgelegt.catfile (ha : Abgelegt v.geo v.hentry q d b f) (hi : SitzungInv D p₀ q v)
    {j : Token} {uc : CatUmwelt} (hj : hashParse j.path v.hlen = some d) (hbuf : uc.buf.isSome)
    (hio : ∀ k, uc.lies k = true ∧ uc.schreib k = true) :
    (actnCatfile uc j q v).1 = 0 ∧ (actnCatfile uc j q v).2.flatten = f := by
  have hs : b < v.htableNbEntries := ha.slot
  have hbt : v.bt.h b = d := by rw [hi.digest b, if_pos hs, ha.hash]
  have hl : shfsBtableLookup v.bt d = some b := hbt ▸ hi.lookup_h (hbt ▸ ha.live)
  obtain ⟨x, hx⟩ := Option.isSome_iff_exists.mp hbuf
  obtain ⟨rest, hcat, hrest⟩ := catSchleife_datei ha.chunksize_lt ha.chunksize_pos ha.nicht_leer
    ha.im_volumen ha.bytes hio
  simp only [Vol.geo_volsize, Vol.geo_chunksize] at hcat
  simp only [actnCatfile, hx, hj, hl, ha.offset, ha.len, hcat, true_and]
  exact hrest

end Abgelegt

variable (D : ShfsDefs)

/-- The object `f` under `d` at slot `b`: in the cache while a volume is mounted, in the primary
    hash-table region of the members between sessions. -/
def SysAbgelegt (d b : Nat) (f : List UInt8) (s : System) : Prop :=
  match s.vol with
  | none => Abgelegt (geoVon D s.platte) (s.platte.slot D) s.platte d b f
  | some v => Abgelegt v.geo v.hentry s.platte d b f

/-- An `actn_rmfile` of the digest `d` that returns 0. -/
def Entfernt (d : Nat) (v : Vol) : Ereignis → Prop
  | .rmfile j => hashParse j.path v.hlen = some d ∧ (actnRmfile j v).1 = 0
  | _ => False

/-- The runs from `s` to `s'` none of whose steps is `Riskant` or a remove of `d` that returns
    0. -/
inductive Pfad (H : List UInt8 → Nat) (d : Nat) (s : System) : System → Prop
  | refl : Pfad H d s s
  | schritt {s' s'' : System} {e : Ereignis} {r : Int × Ausgabe} : Pfad H d s s' →
      schritt D H s' e = some (s'', r) →
      (∀ v, s'.vol = some v → ¬ Riskant D H s'.platte v e ∧ ¬ Entfernt d v e) → Pfad H d s s''

/-! ## 2. The add that stores, and the steps that keep -/

section Schritte

variable {D} (H : List UInt8 → Nat) {p₀ p : Platte} {v : Vol}

/-- **An add that returns 0 stores its file** under the digest `Vol.digest` it computed, at the
    slot that digest took. -/
theorem addfile_abgelegt (hi : SitzungInv D p₀ p v) (hcs : v.chunksize < 2 ^ 64)
    {u : AddfileUmwelt} {j : Token} {f : List UInt8} {p' : Platte} {v' : Vol}
    (hf : u.datei = some f) (ha : actnAddfile D H u j p v = (0, p', v')) :
    ∃ b, Abgelegt v'.geo v'.hentry p' (v.digest H f) b f := by
  obtain ⟨f', buf, d, b, bt, hf', hc0, -, hdg, hk, hv'⟩ := actnAddfile_null D H ha
  obtain rfl : f = f' := (Option.some.inj (hf'.symm.trans hf)).symm
  obtain ⟨hcs0, hf0⟩ := Vol.cchk_pos hc0
  obtain rfl := addfileDigest_digest H hcs0 hdg
  obtain ⟨hd, hbn, -, -, -⟩ := hi.addfile_slot hdg j
  obtain ⟨hvol, hnutz⟩ := kopierSchleife_inhalt hcs0 hk
  have he : v'.hentry b = neuerHentry D j u.zeit (v.digest H f) (v.cchk f) f.length := by
    rw [hv', eintragen_hentry_self]
  rw [(hi.addfile ha).geo.trans hi.geo.symm]
  refine ⟨b, hbn, hd, ?_, ?_, ?_, hf0, hcs0, hcs, fun k hk => ?_, fun i hi' => ?_⟩
  all_goals rw [he]
  exacts [rfl, rfl, rfl, hvol k hk, hnutz i hi']

/-- **The actions that neither add nor remove** keep the core of every record: the flag changes
    touch only `flags`, the others no record. -/
theorem aktion_kern_sonst {e : Ereignis} {p' : Platte} {v' : Vol} {r : Int} {a : Ausgabe}
    (h : aktion D H p v e = some (p', v', r, a)) (hadd : ∀ j u, e ≠ .addfile j u)
    (hrm : ∀ j, e ≠ .rmfile j) (i : Nat) : GleicherKern (v.hentry i) (v'.hentry i) := by
  cases e <;> simp only [aktion, Option.some.injEq, Prod.mk.injEq] at h
  case addfile j u => exact absurd rfl (hadd j u)
  case rmfile j => exact absurd rfl (hrm j)
  case setdefault j =>
    obtain ⟨-, hv, hr, -⟩ := h
    rcases actnSetdefault_faelle D (Prod.ext hr hv) with ⟨-, rfl⟩ | ⟨-, b, -, -, -, rfl⟩
    · exact GleicherKern.of_eq rfl
    · exact ((actnCleardefault_kern (D := D) v).2 i).trans
        (bentryFlags_kern (· ||| ·) (actnCleardefault D v).2 b D.eflagDefault i)
  case cleardefault =>
    obtain ⟨-, rfl, -⟩ := h
    exact (actnCleardefault_kern (D := D) v).2 i
  case catfile | ls | info =>
    obtain ⟨-, rfl, -⟩ := h
    exact GleicherKern.of_eq rfl
  case mount | umount => cases h

/-- An action that is no successful remove of `d` keeps the core of the record that holds `d`:
    an add takes an empty slot, a remove of another digest empties another slot, and a flag
    change touches the flags only. -/
theorem SitzungInv.aktion_kern (hi : SitzungInv D p₀ p v) {b d : Nat} (hb : b < v.htableNbEntries)
    (hd : (v.hentry b).hash = d) (hd0 : d ≠ 0) {e : Ereignis} (hn : ¬ Entfernt d v e)
    {p' : Platte} {v' : Vol} {r : Int} {a : Ausgabe} (h : aktion D H p v e = some (p', v', r, a)) :
    GleicherKern (v.hentry b) (v'.hentry b) := by
  have hbt : v.bt.h b = d := by rw [hi.digest b, if_pos hb, hd]
  cases e
  case addfile j u =>
    simp only [aktion, Option.some.injEq, Prod.mk.injEq] at h
    obtain ⟨hp, hv, hr, -⟩ := h
    rcases actnAddfile_faelle D H (Prod.ext hr (Prod.ext hp hv)) with
      ⟨-, -, rfl⟩ | ⟨f, buf, d', b', bt, -, -, -, hdg, -, hv'⟩
    · exact GleicherKern.of_eq rfl
    obtain ⟨-, -, hb0, -, hrec⟩ := hi.addfile_slot hdg j
    have hne : b ≠ b' := by rintro rfl; exact hd0 (hbt.symm.trans hb0)
    have he := (hrec b hb).trans (if_neg hne)
    rcases hv' with ⟨-, rfl⟩ | ⟨-, rfl⟩ <;> exact GleicherKern.of_eq he
  case rmfile j =>
    simp only [aktion, Option.some.injEq, Prod.mk.injEq] at h
    obtain ⟨-, hv, hr, -⟩ := h
    rcases actnRmfile_faelle (Prod.ext hr hv) with ⟨-, rfl⟩ | ⟨d', b', al, hd', hbl, -, hr0, rfl⟩
    · exact GleicherKern.of_eq rfl
    have hne : b ≠ b' := by
      rintro rfl
      refine hn ⟨?_, hr.trans hr0⟩
      rw [hd', ← (shfsBtableLookup_some hbl).1, hbt]
    refine GleicherKern.of_eq ((Vol.hentry_speichern _ _ ?_).trans (if_neg hne))
    exact fun h => hi.bentry_inj hb (hi.lookup_lt hbl) h
  all_goals exact aktion_kern_sonst H h (fun _ _ h => nomatch h) (fun _ h => nomatch h) b

variable (D)

/-- **Every step from a state reached without a `Riskant` step keeps a stored object**, unless it
    removes its digest. -/
theorem SysAbgelegt.nachSchritt {d b : Nat} {f : List UInt8} {s s' : System} {e : Ereignis}
    {r : Int × Ausgabe} (h : ErreichbarOhneRisiko D H s) (ha : SysAbgelegt D d b f s)
    (hn : ∀ v, s.vol = some v → ¬ Entfernt d v e) (hs : schritt D H s e = some (s', r)) :
    SysAbgelegt D d b f s' := by
  have hb := h.sysBelegung
  have hsi := erreichbar_sysInv D H h.erreichbar
  obtain ⟨p, vol⟩ := s
  rcases schritt_faelle D H hs with ⟨_, rfl, -, -, rfl, -⟩ | ⟨_, v, rfl, -, hm, rfl, -⟩ |
    ⟨v, _, p', rfl, -, hu, rfl, -⟩ | ⟨v, p', v', _, _, rfl, hac, rfl, -⟩
  · exact ha
  · have hg := (mount_sitzungInv D hsi hm).1.geo
    have hn : v.htableNbEntries = (geoVon D p).htableNbEntries := congrArg Geo.htableNbEntries hg
    exact ha.uebertragen hg (GleicherKern.of_eq (mount_hentry hsi hm (hn ▸ ha.slot))) fun _ _ => rfl
  · obtain ⟨p₀, hi⟩ := hsi
    exact ha.uebertragen (hi.geoVon_umount hu) (GleicherKern.of_eq (hi.slot_umount hu ha.slot))
      fun c hc => hi.umount_rahmen hu (hi.eintraege.fussabdruck b hc.1 c hc.2.2.1 hc.2.2.2)
  · obtain ⟨p₀, hi⟩ := hsi
    exact ha.uebertragen ((hi.nachAktion hac).geo.trans hi.geo.symm)
      (hi.aktion_kern H ha.slot ha.hash ha.live (hn v rfl) hac)
      fun _ hc => Belegung.aktion_schont hb hac hc

/-- A run without a `Riskant` step stays without one. -/
theorem Pfad.erreichbar {d : Nat} {s s' : System} (hp : Pfad D H d s s')
    (h : ErreichbarOhneRisiko D H s) : ErreichbarOhneRisiko D H s' := by
  induction hp with
  | refl => exact h
  | schritt _ hs hn ih => exact .schritt ih hs fun v hv => (hn v hv).1

/-- A stored object stays stored along a run that does not remove it. -/
theorem Pfad.abgelegt {d b : Nat} {f : List UInt8} {s s' : System} (hp : Pfad D H d s s')
    (h : ErreichbarOhneRisiko D H s) (ha : SysAbgelegt D d b f s) : SysAbgelegt D d b f s' := by
  induction hp with
  | refl => exact ha
  | schritt hp' hs hn ih =>
    exact ih.nachSchritt D H (hp'.erreichbar D H h) (fun v hv => (hn v hv).2) hs

end Schritte

/-! ## 3. Every run after the add -/

variable (H : List UInt8 → Nat)

/-- **What an add stored stays stored.** From a state reached without a `Riskant` step, an
    `actn_addfile` of the regular file `f` that returns 0, on a volume whose chunk size fits
    `uint64_t`, stores `f` under the digest `Vol.digest` it computed, which is not 0: along every
    run that follows, none of whose steps is `Riskant` or a remove of that digest that returns 0
    -- through other adds, removes, flag changes, exports, failed steps and umount/mount cycles
    -- whenever a volume is mounted, the export of every token whose digest string parses to it,
    in a world where `malloc`, every chunk read and every `write` succeed, returns 0 and writes
    the bytes of `f`. -/
theorem addfile_haltbar {s : System} (h : ErreichbarOhneRisiko D H s) {v : Vol}
    (hv : s.vol = some v) {u : AddfileUmwelt} {j : Token} {f : List UInt8} {p' : Platte}
    {v' : Vol} (hcs : v.chunksize < 2 ^ 64) (hf : u.datei = some f)
    (ha : actnAddfile D H u j s.platte v = (0, p', v')) :
    v.digest H f ≠ 0 ∧ ∀ s₂, Pfad D H (v.digest H f) ⟨p', some v'⟩ s₂ → ∀ v₂, s₂.vol = some v₂ →
      ∀ (j' : Token) (uc : CatUmwelt), hashParse j'.path v₂.hlen = some (v.digest H f) →
        uc.buf.isSome →
        (∀ k, uc.lies k = true ∧ uc.schreib k = true) →
        (actnCatfile uc j' s₂.platte v₂).1 = 0 ∧ (actnCatfile uc j' s₂.platte v₂).2.flatten = f := by
  obtain ⟨p, vol⟩ := s
  cases hv
  obtain ⟨p₀, hi⟩ := erreichbar_sysInv D H h.erreichbar
  obtain ⟨b, hab⟩ := addfile_abgelegt H hi hcs hf ha
  have h₀ : ErreichbarOhneRisiko D H ⟨p', some v'⟩ :=
    .schritt h (show schritt D H ⟨p, some v⟩ (.addfile j u) = some (⟨p', some v'⟩, 0, .keine) by
      simp only [schritt, aktion, ha, Option.map_some']) fun _ hv hr => by
        cases hv
        rw [Riskant, ha] at hr
        exact Int.lt_irrefl 0 hr.1
  refine ⟨hab.live, ?_⟩
  rintro ⟨p₂, _⟩ hp v₂ ⟨⟩ j' uc hj hbuf hio
  obtain ⟨p₂₀, hi₂⟩ := erreichbar_sysInv D H (hp.erreichbar D H h₀).erreichbar
  exact Abgelegt.catfile (hp.abgelegt D H h₀ hab) hi₂ hj hbuf hio

/-- The example volume, mounted: the add of the one byte `1`, whose digest is `2`. -/
theorem addfile_haltbar_vol₀ :
    ErreichbarOhneRisiko defs₀ hash₀ ⟨platte₀, some vol₀⟩ ∧ vol₀.chunksize < 2 ^ 64 ∧
    (glatteUmwelt [1] Chunk.null 0).datei = some [1] ∧ vol₀.digest hash₀ [1] = 2 ∧
    ∃ p' v', actnAddfile defs₀ hash₀ (glatteUmwelt [1] Chunk.null 0) ⟨.addobj, "a", none, none⟩
        platte₀ vol₀ = (0, p', v') ∧
      vol₀.digest hash₀ [1] ≠ 0 ∧ ∀ s₂, Pfad defs₀ hash₀ (vol₀.digest hash₀ [1]) ⟨p', some v'⟩ s₂ →
        ∀ v₂, s₂.vol = some v₂ → ∀ (j' : Token) (uc : CatUmwelt),
          hashParse j'.path v₂.hlen = some (vol₀.digest hash₀ [1]) → uc.buf.isSome →
          (∀ k, uc.lies k = true ∧ uc.schreib k = true) →
          (actnCatfile uc j' s₂.platte v₂).1 = 0 ∧
            (actnCatfile uc j' s₂.platte v₂).2.flatten = [1] := by
  obtain ⟨p', v', h⟩ : ∃ p' v', actnAddfile defs₀ hash₀ (glatteUmwelt [1] Chunk.null 0)
      ⟨.addobj, "a", none, none⟩ platte₀ vol₀ = (0, p', v') := ⟨_, _, rfl⟩
  exact ⟨erreichbarOhneRisiko_vol₀, by decide, rfl, by decide, p', v', h,
    addfile_haltbar defs₀ hash₀ erreichbarOhneRisiko_vol₀ rfl (by decide) rfl h⟩

/-! ## 4. The remount -/

/-- **A remount rebuilds the bucket table and the allocator the session ended with.** From a state
    reached without a `Riskant` step, with a volume mounted: after `umount_shfs` and a new
    `mount_shfs` of the members it leaves, the new session has the same geometry and the same
    records, and its bucket table and allocator are those the session ended with. -/
theorem wiedereinhaengen_identisch {s : System} (h : ErreichbarOhneRisiko D H s) {v : Vol}
    (hv : s.vol = some v) {w : Nat → Bool} {p' : Platte} {u : MountUmwelt} {v' : Vol}
    (hu : umountShfs w v s.platte = some p') (hm : mountShfs D u p' = some v') :
    v'.geo = v.geo ∧ v'.bt = v.bt ∧ v'.al = v.al ∧
      ∀ i < v.htableNbEntries, v'.hentry i = v.hentry i := by
  obtain ⟨p, vol⟩ := s
  cases hv
  have hb : Belegung v := h.sysBelegung
  obtain ⟨p₀, hi⟩ := erreichbar_sysInv D H h.erreichbar
  obtain ⟨hi', hg, hrec⟩ := hi.wiedereinhaengen hu hm
  have hb' : Belegung v' := mount_belegung (hi.platteInv hu) (hb.umount hi hu) hm
  have hnb : v'.htableNbEntries = v.htableNbEntries := congrArg Geo.htableNbEntries hg
  have hh : v'.bt.h = v.bt.h := funext fun i => by
    by_cases hin : i < v.htableNbEntries
    · exact (hrec i hin).2
    · rw [hi'.digest i, hi.digest i, hnb, if_neg hin, if_neg hin]
  have hk : ∀ i < v.geo.htableNbEntries, GleicherKern (v.hentry i) (v'.hentry i) :=
    fun i hin => GleicherKern.of_eq (hrec i hin).1
  refine ⟨hg, Btable.ext' (congrArg Geo.btNbBkts hg) (congrArg Geo.btElPerBkt hg)
    (congrArg Geo.btHlen hg) hh (congrArg Geo.bentry hg), Alist.ext' (congrArg Geo.alVolsize hg)
    (congrArg Geo.alAllocator hg) fun c => Bool.eq_iff_iff.mpr ?_, fun i hin => (hrec i hin).1⟩
  rw [hb'.genau c, hb.genau c, hg]
  simp only [ImContainer.kern hk]

/-- On the example volume: the add of the one byte `1`, the unmount, a new mount. -/
theorem wiedereinhaengen_identisch_system₁ :
    ∃ v p' v', ErreichbarOhneRisiko defs₀ hash₀ system₁ ∧ system₁.vol = some v ∧
      umountShfs (fun _ => true) v system₁.platte = some p' ∧
      mountShfs defs₀ mountUmwelt₀ p' = some v' ∧
      (v'.geo = v.geo ∧ v'.bt = v.bt ∧ v'.al = v.al ∧
        ∀ i < v.htableNbEntries, v'.hentry i = v.hentry i) := by
  refine ⟨_, _, _, erreichbarOhneRisiko_system₁, rfl, rfl, rfl, ?_⟩
  exact wiedereinhaengen_identisch defs₀ hash₀ erreichbarOhneRisiko_system₁ rfl
    (show umountShfs (fun _ => true) _ _ = some _ from rfl)
    (show mountShfs defs₀ mountUmwelt₀ _ = some _ from rfl)

end Minicache.Shfs
