/-
  File:      Minicache/Shfs/Standard.lean
  Subject:   The default object: `SHFS_EFLAG_DEFAULT` on the records, `shfs_vol.def_bentry`, and
             what of their agreement every run of the tool keeps.

  `actn_setdefault` clears the flag of the record `def_bentry` names, flags the new one and names
  it; `actn_cleardefault` clears it and forgets it; `load_vol_htable` names the last flagged
  record it reads. `actn_rmfile` keeps both the flag and `def_bentry` of a removed default
  (`actnRmfile_behaelt_default`, Bestand.lean), so `def_bentry` may name an empty record. What
  does hold:

  * `DefaultInv` -- while mounted, at most one cached record carries DEFAULT, and `def_bentry`
    names it when there is one; `PlatteDefault` -- between sessions, at most one record of the
    primary region carries DEFAULT;
  * `DefaultInv.nachAktion` -- every action keeps `DefaultInv`: add and remove never set a flag,
    set-default clears the one it replaces;
  * `mount_defaultInv`, `DefaultInv.umount` -- the mount names the one flagged record
    (`letzterDefault_eindeutig`), the unmount writes the cached flags back;
  * **`default_eindeutig`** -- in every reachable state.
-/
import Minicache.Shfs.Bestand

namespace Minicache.Shfs

variable (D : ShfsDefs)

/-! ## 1. The invariants -/

/-- At most one of the records `rec 0, …, rec (n - 1)` carries DEFAULT. -/
def HoechstensEinDefault (n : Nat) (rec : Nat → Hentry) : Prop :=
  ∀ i < n, ∀ j < n, (rec i).isDefault D = true → (rec j).isDefault D = true → i = j

/-- While mounted: at most one cached record carries DEFAULT, and `def_bentry` names it. -/
structure DefaultInv (v : Vol) : Prop where
  hoechstens : HoechstensEinDefault D v.htableNbEntries v.hentry
  benannt : ∀ i < v.htableNbEntries, (v.hentry i).isDefault D = true → v.defBentry = some i

/-- Between sessions: at most one record of the primary region carries DEFAULT. -/
def PlatteDefault (p : Platte) : Prop :=
  ∀ cs vs, loadVolCconf p.hdrCommon = some (cs, vs) → 0 < (geoVon D p).htableLen →
    HoechstensEinDefault D (geoVon D p).htableNbEntries (p.slot D)

/-- The default invariant over the life of a volume. -/
def SysDefault (s : System) : Prop :=
  match s.vol with
  | none => PlatteDefault D s.platte
  | some v => DefaultInv D v

theorem isDefault_neuerHentry (j : Token) (zeit fhash cchk fsize : Nat) :
    (neuerHentry D j zeit fhash cchk fsize).isDefault D = false := by
  simp only [Hentry.isDefault, neuerHentry, bne_eq_false_iff_eq]
  exact UInt8.eq_of_toBitVec_eq BitVec.zero_and

section Aktionen

variable {D} {p₀ p : Platte} {v : Vol}

/-- A change that sets no DEFAULT flag and keeps `def_bentry` keeps `DefaultInv`. -/
theorem DefaultInv.ohne_neue (hd : DefaultInv D v) (v' : Vol)
    (hn : v'.htableNbEntries = v.htableNbEntries) (hb : v'.defBentry = v.defBentry)
    (hf : ∀ i < v.htableNbEntries, (v'.hentry i).isDefault D = true →
      (v.hentry i).isDefault D = true) : DefaultInv D v' where
  hoechstens i hi j hj h1 h2 :=
    hd.hoechstens i (hn ▸ hi) j (hn ▸ hj) (hf i (hn ▸ hi) h1) (hf j (hn ▸ hj) h2)
  benannt i hi h1 := hb.trans (hd.benannt i (hn ▸ hi) (hf i (hn ▸ hi) h1))

/-- The commit of an add writes a record without flags to one slot. -/
theorem DefaultInv.commit (hd : DefaultInv D v) (hi : SitzungInv D p₀ p v) {bt : Btable}
    {b : Nat} {j : Token} {zeit fhash cchk fsize : Nat} (hb : b < v.htableNbEntries)
    (hbt : bt.bentry = v.bt.bentry) (w : Vol) (hwc : w.htableChunkCache = v.htableChunkCache)
    (hwn : w.htableNbEntries = v.htableNbEntries) (hwd : w.defBentry = v.defBentry) :
    DefaultInv D (eintragen w bt b (neuerHentry D j zeit fhash cchk fsize)) :=
  hd.ohne_neue (eintragen w bt b (neuerHentry D j zeit fhash cchk fsize)) hwn hwd fun i hi' h1 => by
    have hrec := Vol.hentry_speichern ({ w with bt := bt } : Vol)
      (neuerHentry D j zeit fhash cchk fsize) (i := b) (j := i)
      fun h => hi.bentry_inj hi' hb (by rw [← hbt]; exact h)
    simp only [eintragen, Vol.hentry_markModified] at h1
    rw [hrec] at h1
    split at h1
    · rw [isDefault_neuerHentry] at h1; cases h1
    · have : ({ w with bt := bt } : Vol).hentry i = v.hentry i := by
        simp only [Vol.hentry, hbt, hwc]
      rwa [this] at h1

/-- **`actn_addfile` keeps `DefaultInv`**, however it ends. -/
theorem DefaultInv.addfile {H : List UInt8 → Nat} (hd : DefaultInv D v)
    (hi : SitzungInv D p₀ p v) {u : AddfileUmwelt} {j : Token} {p' : Platte} {v' : Vol} {r : Int}
    (h : actnAddfile D H u j p v = (r, p', v')) : DefaultInv D v' := by
  rcases actnAddfile_faelle D H h with ⟨-, -, rfl⟩ | ⟨f, buf, d, b, bt, -, -, -, hdg, -, hv⟩
  · exact hd
  obtain ⟨hl, ha⟩ := addfileDigest_ok H hdg
  obtain ⟨-, hb1, hb2, rfl⟩ := shfsBtableAddentry_some ha
  have hb : b < v.htableNbEntries := by
    have := hi.basis_lt d (k := b - v.bt.basis d) (by omega)
    omega
  rcases hv with ⟨-, rfl⟩ | ⟨-, rfl⟩
  · exact hd.commit hi hb (by rfl) v (by rfl) (by rfl) (by rfl)
  · exact hd.commit hi hb (by rfl) _ (by rfl) (by rfl) (by rfl)

/-- **`actn_rmfile` keeps `DefaultInv`**: it clears a digest, not a flag. -/
theorem DefaultInv.rmfile (hd : DefaultInv D v) (hi : SitzungInv D p₀ p v) {j : Token} {v' : Vol}
    {r : Int} (h : actnRmfile j v = (r, v')) : DefaultInv D v' := by
  rcases actnRmfile_faelle h with ⟨-, rfl⟩ | ⟨d, b, al, -, hb, -, -, rfl⟩
  · exact hd
  have hblt := hi.lookup_lt hb
  refine hd.ohne_neue _ rfl rfl fun i hi' h1 => ?_
  simp only [Vol.hentry_markModified] at h1
  rw [Vol.hentry_speichern ({ v with al := al, bt := { v.bt with h := Function.update v.bt.h b 0 } })
    _ (i := b) (j := i) fun h => hi.bentry_inj hi' hblt h] at h1
  split at h1
  · subst_vars; exact h1
  · exact h1

@[simp] theorem actnCleardefault_bt (v : Vol) : (actnCleardefault D v).2.bt = v.bt := by
  unfold actnCleardefault; split <;> rfl

@[simp] theorem actnCleardefault_htableNbEntries (v : Vol) :
    (actnCleardefault D v).2.htableNbEntries = v.htableNbEntries := by
  unfold actnCleardefault; split <;> rfl

/-- After `actn_cleardefault` no record the invariant speaks of carries DEFAULT. -/
theorem DefaultInv.cleardefault_keiner (hd : DefaultInv D v) {i : Nat} (hi : i < v.htableNbEntries) :
    ((actnCleardefault D v).2.hentry i).isDefault D = false := by
  unfold actnCleardefault
  split
  · rename_i hn
    cases h : (v.hentry i).isDefault D
    · rfl
    · rw [hd.benannt i hi h] at hn; cases hn
  · rename_i c hc
    simp only [Vol.hentry_mit_defBentry, bentryClearflags, bentryFlags_hentry]
    split
    · exact isDefault_clearDefault D _
    · rename_i hne
      cases h : (v.hentry i).isDefault D
      · rfl
      · obtain rfl := Option.some.inj ((hd.benannt i hi h).symm.trans hc)
        exact absurd rfl hne

/-- **`actn_cleardefault` keeps `DefaultInv`**: no record is left flagged. -/
theorem DefaultInv.cleardefault (hd : DefaultInv D v) : DefaultInv D (actnCleardefault D v).2 := by
  have hk : ∀ i < (actnCleardefault D v).2.htableNbEntries,
      ((actnCleardefault D v).2.hentry i).isDefault D = false := fun i hi =>
    hd.cleardefault_keiner (actnCleardefault_htableNbEntries v ▸ hi)
  exact ⟨fun i hi _ _ h1 _ => absurd ((hk i hi).symm.trans h1) Bool.false_ne_true,
    fun i hi h1 => absurd ((hk i hi).symm.trans h1) Bool.false_ne_true⟩

/-- **`actn_setdefault` keeps `DefaultInv`**: the record it flags is the only flagged one. -/
theorem DefaultInv.setdefault (hd : DefaultInv D v) (hi : SitzungInv D p₀ p v) {j : Token}
    {v' : Vol} {r : Int} (h : actnSetdefault D j v = (r, v')) : DefaultInv D v' := by
  rcases actnSetdefault_faelle D h with ⟨-, rfl⟩ | ⟨d, b, -, hb, -, rfl⟩
  · exact hd
  have hblt := hi.lookup_lt hb
  have hnur : ∀ i < v.htableNbEntries, ((bentrySetflags (actnCleardefault D v).2 b
      D.eflagDefault).hentry i).isDefault D = true → i = b :=
    fun i hi' h1 => by
      rw [bentrySetflags, bentryFlags_hentry] at h1
      split at h1
      · rename_i hbe
        rw [actnCleardefault_bt] at hbe
        exact hi.bentry_inj hi' hblt hbe
      · rw [hd.cleardefault_keiner hi'] at h1; cases h1
  have hn : (bentrySetflags (actnCleardefault D v).2 b D.eflagDefault).htableNbEntries =
      v.htableNbEntries := actnCleardefault_htableNbEntries v
  exact ⟨fun i hi' k hk h1 h2 => (hnur i (hn ▸ hi') h1).trans (hnur k (hn ▸ hk) h2).symm,
    fun i hi' h1 => by rw [hnur i (hn ▸ hi') h1]⟩

/-- **Every action keeps `DefaultInv`.** -/
theorem DefaultInv.nachAktion {H : List UInt8 → Nat} (hd : DefaultInv D v)
    (hi : SitzungInv D p₀ p v) {e : Ereignis} {p' : Platte} {v' : Vol} {r : Int} {a : Ausgabe}
    (h : aktion D H p v e = some (p', v', r, a)) : DefaultInv D v' := by
  cases e <;> simp only [aktion, Option.some.injEq, Prod.mk.injEq] at h
  case addfile j u =>
    obtain ⟨hp, hv, hr, -⟩ := h
    exact hd.addfile hi (Prod.ext hr (Prod.ext hp hv))
  case rmfile j =>
    obtain ⟨-, hv, hr, -⟩ := h
    exact hd.rmfile hi (Prod.ext hr hv)
  case setdefault j =>
    obtain ⟨-, hv, hr, -⟩ := h
    exact hd.setdefault hi (Prod.ext hr hv)
  case cleardefault =>
    obtain ⟨-, rfl, -⟩ := h
    exact hd.cleardefault
  case catfile | ls | info =>
    obtain ⟨-, rfl, -⟩ := h
    exact hd
  case mount | umount => cases h

end Aktionen

/-! ## 2. Mount and unmount -/

/-- With at most one flagged record among the first `m`, the last flagged one is that one. -/
theorem letzterDefault_eindeutig {ref epc : Nat} {p : Platte} {d₀ : Option Nat} : ∀ m,
    HoechstensEinDefault D m (slotHentry D ref epc p) → ∀ i < m,
      (slotHentry D ref epc p i).isDefault D = true → letzterDefault D ref epc p d₀ m = some i
  | 0, _, _, hi, _ => absurd hi (Nat.not_lt_zero _)
  | m + 1, hu, i, hi, h => by
    unfold letzterDefault
    split
    · rw [hu m (Nat.lt_succ_self m) i hi ‹_› h]
    · have him : i ≠ m := fun e => by subst e; simp_all
      exact letzterDefault_eindeutig m (fun a ha b hb => hu a (by omega) b (by omega)) i
        (by omega) h

/-- What the mount leaves of `load_vol_htable`'s choice of default. -/
theorem mountShfs_defBentry {u : MountUmwelt} {p : Platte} {v : Vol}
    (h : mountShfs D u p = some v) :
    (∃ cs vs, loadVolCconf p.hdrCommon = some (cs, vs)) ∧
      v.defBentry = letzterDefault D p.hdrConfig.htableRef
        (shfsHentriesPerChunk D (shfsChunksize p.hdrCommon)) p none
        (shfsHtableNbEntries p.hdrConfig) := by
  simp only [mountShfs, loadVolHtable, Option.bind_eq_bind, Option.bind_eq_some, pure,
    Option.some.injEq] at h
  obtain ⟨⟨cs, vs⟩, h1, ⟨epc, len⟩, h2, z, hz, al, -, rfl⟩ := h
  obtain ⟨rfl, rfl, -⟩ := loadVolCconf_some h1
  obtain ⟨rfl, rfl, hlen⟩ := loadVolHconf_some D h2
  have hl := ladeHtable_inv D u _ _ _ p (geoVon_epc_pos D hlen) _ (ladeInv_start D _ _ _ p _ rfl) hz
  rw [Nat.zero_add] at hl
  exact ⟨⟨_, _, h1⟩, hl.defBentry⟩

section Sitzung

variable {D} {p₀ p p' : Platte} {v : Vol} {w : Nat → Bool}

/-- **The mount names the one flagged record.** -/
theorem mount_defaultInv {u : MountUmwelt} (hp : PlatteInv D p) (hpd : PlatteDefault D p)
    (h : mountShfs D u p = some v) : DefaultInv D v := by
  have hi := (mount_sitzungInv D hp h).1
  obtain ⟨⟨cs, vs, hc⟩, hdef⟩ := mountShfs_defBentry D h
  have hn : v.htableNbEntries = (geoVon D p).htableNbEntries := congrArg Geo.htableNbEntries hi.geo
  have hu := hpd cs vs hc hi.len_pos'
  refine ⟨fun i hi' j hj h1 h2 => ?_, fun i hi' h1 => ?_⟩
  · rw [mount_hentry hp h hi'] at h1
    rw [mount_hentry hp h hj] at h2
    exact hu i (hn ▸ hi') j (hn ▸ hj) h1 h2
  · rw [mount_hentry hp h hi'] at h1
    rw [hdef]
    exact letzterDefault_eindeutig D _ hu i (hn ▸ hi') h1

/-- **The unmount writes the cached flags back.** -/
theorem DefaultInv.umount (hd : DefaultInv D v) (hi : SitzungInv D p₀ p v)
    (h : umountShfs w v p = some p') : PlatteDefault D p' := by
  intro _ _ _ _
  rw [hi.geoVon_umount h]
  intro i hi' j hj h1 h2
  rw [hi.slot_umount h hi'] at h1
  rw [hi.slot_umount h hj] at h2
  exact hd.hoechstens i hi' j hj h1 h2

end Sitzung

/-! ## 3. Every run -/

/-- A fresh volume has no flagged record. -/
theorem frisch_platteDefault {p : Platte} (h : Frisch D p) : PlatteDefault D p := by
  intro cs vs hc hlen i hi _ _ h1 _
  obtain ⟨rfl, -⟩ := loadVolCconf_some hc
  rw [show p.slot D i = Hentry.leer from h _ vs hc _ (geoVon_chunk_lt D hlen hi) _,
    isDefault_leer] at h1
  cases h1

variable (H : List UInt8 → Nat)

/-- **Every step keeps the default invariant.** -/
theorem SysDefault.nachSchritt {s s' : System} {e : Ereignis} {r : Int × Ausgabe}
    (hs : SysInv D s) (hd : SysDefault D s) (h : schritt D H s e = some (s', r)) :
    SysDefault D s' := by
  obtain ⟨p, vol⟩ := s
  rcases schritt_faelle D H h with ⟨_, rfl, -, -, rfl, -⟩ | ⟨_, v, rfl, -, hm, rfl, -⟩ |
    ⟨v, _, _, rfl, -, hu, rfl, -⟩ | ⟨v, _, _, _, _, rfl, ha, rfl, -⟩
  · exact hd
  · exact mount_defaultInv hs hd hm
  · obtain ⟨p₀, hi⟩ := hs
    exact hd.umount hi hu
  · obtain ⟨p₀, hi⟩ := hs
    exact hd.nachAktion hi ha

/-- **The default object in every reachable state.** In every state the tool reaches from a
    freshly made volume, through any actions, failures, cancels and umount/mount cycles: while
    the volume is mounted, at most one cached hash-table record carries `SHFS_EFLAG_DEFAULT`,
    and `shfs_vol.def_bentry` names it whenever there is one; between sessions, at most one
    record of the primary hash-table region carries it. -/
theorem default_eindeutig {s : System} (h : Erreichbar D H s) :
    (∀ v, s.vol = some v →
      (∀ i < v.htableNbEntries, ∀ j < v.htableNbEntries, (v.hentry i).isDefault D = true →
        (v.hentry j).isDefault D = true → i = j) ∧
      ∀ i < v.htableNbEntries, (v.hentry i).isDefault D = true → v.defBentry = some i) ∧
    (s.vol = none → ∀ cs vs, loadVolCconf s.platte.hdrCommon = some (cs, vs) →
      0 < (geoVon D s.platte).htableLen →
      ∀ i < (geoVon D s.platte).htableNbEntries, ∀ j < (geoVon D s.platte).htableNbEntries,
        (s.platte.slot D i).isDefault D = true → (s.platte.slot D j).isDefault D = true →
          i = j) := by
  have hd : SysDefault D s := by
    induction h with
    | start p hp => exact frisch_platteDefault D hp
    | schritt hr hs ih => exact ih.nachSchritt D H (erreichbar_sysInv D H hr) hs
  obtain ⟨p, vol⟩ := s
  cases vol with
  | none => exact ⟨(fun _ h => nomatch h), fun _ => hd⟩
  | some v =>
    refine ⟨fun v' hv => ?_, fun h => nomatch h⟩
    cases hv
    exact ⟨hd.hoechstens, hd.benannt⟩

/-- After a mount, an add of the one byte `1` and a set-default of its digest `02`. -/
theorem default_eindeutig_lauf :
    ∃ s rs, lauf defs₀ hash₀ ⟨platte₀, none⟩ [.mount mountUmwelt₀,
        .addfile ⟨.addobj, "a", none, none⟩ (glatteUmwelt [1] Chunk.null 0),
        .setdefault ⟨.setdefobj, "02", none, none⟩] = some (s, rs) ∧
      (∀ v, s.vol = some v →
        (∀ i < v.htableNbEntries, ∀ j < v.htableNbEntries, (v.hentry i).isDefault defs₀ = true →
          (v.hentry j).isDefault defs₀ = true → i = j) ∧
        ∀ i < v.htableNbEntries, (v.hentry i).isDefault defs₀ = true → v.defBentry = some i) ∧
      (s.vol = none → ∀ cs vs, loadVolCconf s.platte.hdrCommon = some (cs, vs) →
        0 < (geoVon defs₀ s.platte).htableLen →
        ∀ i < (geoVon defs₀ s.platte).htableNbEntries, ∀ j < (geoVon defs₀ s.platte).htableNbEntries,
          (s.platte.slot defs₀ i).isDefault defs₀ = true →
            (s.platte.slot defs₀ j).isDefault defs₀ = true → i = j) := by
  obtain ⟨s, rs, h⟩ : ∃ s rs, lauf defs₀ hash₀ ⟨platte₀, none⟩ [.mount mountUmwelt₀,
      .addfile ⟨.addobj, "a", none, none⟩ (glatteUmwelt [1] Chunk.null 0),
      .setdefault ⟨.setdefobj, "02", none, none⟩] = some (s, rs) := ⟨_, _, rfl⟩
  exact ⟨s, rs, h, default_eindeutig defs₀ hash₀
    (erreichbar_lauf defs₀ hash₀ (.start _ frisch_platte₀) h)⟩

end Minicache.Shfs
