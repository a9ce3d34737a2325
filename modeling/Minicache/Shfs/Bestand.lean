/-
  File:      Minicache/Shfs/Bestand.lean
  Subject:   What lasts over the life of a volume: every state the tool reaches from a fresh
             volume, across any number of mounts, actions and unmounts.

  * `SysInv` -- `PlatteInv` between sessions, `SitzungInv` during one, kept by every step
    (`SysInv.nachSchritt`) and so by every run (`erreichbar_sysInv`);
  * **`digests_eindeutig`** -- no non-empty digest twice, in the bucket table, the cached records
    or the records on disk;
  * **`rueckschreiben_vollstaendig`** -- over a session on a volume the tool reached, every cache
    chunk that differs from disk is marked `CCS_MODIFIED`; `umount_shfs` leaves the primary region
    equal to the cache, the backup region too when it equalled the primary one at mount, and the
    next mount finds the records and digests of the last session. On a volume whose record claims
    a chunk of the table, which `mount_shfs` accepts, it fails (`rueckschreiben_ueberlappung`).

  Three laws the code breaks are shown here too. Over all states, an add that fails after its
  commit leaves its entry with its container released (`addfile_fehler_nach_commit`), so that on
  the example volume a later add overwrites a stored object (`lauf_ueberschreibt`); and
  `actn_rmfile` of the default object keeps `def_bentry` and the DEFAULT flag of its emptied record
  (`actnRmfile_behaelt_default`).
-/
import Minicache.Shfs.Invariante

namespace Minicache.Shfs

variable (D : ShfsDefs) (H : List UInt8 → Nat)

/-! ## 1. The invariant of the tool -/

/-- **A fresh volume keeps `PlatteInv`**: its records are all the empty one. -/
theorem frisch_platteInv {p : Platte} (h : Frisch D p) : PlatteInv D p := by
  intro cs vs hc hlen
  have hleer : ∀ i < (geoVon D p).htableNbEntries, p.slot D i = Hentry.leer := fun i hi => by
    obtain ⟨rfl, -⟩ := loadVolCconf_some hc
    exact h _ vs hc _ (geoVon_chunk_lt D hlen hi) _
  refine ⟨fun i hi c h1 h2 => ?_, fun i hi h0 => ?_, fun i hi j _ h0 _ => ?_⟩
  · rw [hleer i hi] at h1 h2
    simp [Hentry.leer, Hentry.fussabdruck] at h2
  · rw [hleer i hi] at h0; exact absurd rfl h0
  · rw [hleer i hi] at h0; exact absurd rfl h0

/-- The invariant over the life of a volume: `PlatteInv` while no process has it mounted, the
    session invariant for the members of its mount while one has. -/
def SysInv (s : System) : Prop :=
  match s.vol with
  | none => PlatteInv D s.platte
  | some v => ∃ p₀, SitzungInv D p₀ s.platte v

/-- **Every step keeps `SysInv`.** -/
theorem SysInv.nachSchritt {s s' : System} {e : Ereignis} {r : Int × Ausgabe} (hs : SysInv D s)
    (h : schritt D H s e = some (s', r)) : SysInv D s' := by
  obtain ⟨p, vol⟩ := s
  cases vol with
  | none =>
    cases e with
    | mount u =>
      simp only [schritt] at h
      split at h
      · cases h; exact hs
      · cases h; exact ⟨p, (mount_sitzungInv D hs ‹_›).1⟩
    | _ => cases h
  | some v =>
    obtain ⟨p₀, hi⟩ := hs
    cases e with
    | umount w =>
      simp only [schritt, Option.map_eq_some'] at h
      obtain ⟨p', hp', he⟩ := h
      cases he
      exact hi.platteInv hp'
    | _ =>
      simp only [schritt, Option.map_eq_some'] at h
      obtain ⟨⟨p', v', r', a⟩, ha, he⟩ := h
      cases he
      exact ⟨p₀, hi.nachAktion ha⟩

/-- **Every state the tool reaches keeps `SysInv`.** -/
theorem erreichbar_sysInv {s : System} (h : Erreichbar D H s) : SysInv D s := by
  induction h with
  | start p hp => exact frisch_platteInv D hp
  | schritt _ hs ih => exact ih.nachSchritt D H hs

/-! ## 2. No digest twice -/

/-- **No digest twice.** In every state the tool reaches from a fresh volume, no two slots of the
    bucket table hold the same non-empty digest, nor do two cached records; between sessions, no
    two records of the primary region on disk. -/
theorem digests_eindeutig {s : System} (h : Erreichbar D H s) :
    (∀ v, s.vol = some v →
      (∀ i j, v.bt.h i ≠ 0 → v.bt.h i = v.bt.h j → i = j) ∧
      ∀ i < v.htableNbEntries, ∀ j < v.htableNbEntries, (v.hentry i).hash ≠ 0 →
        (v.hentry i).hash = (v.hentry j).hash → i = j) ∧
    (s.vol = none → ∀ cs vs, loadVolCconf s.platte.hdrCommon = some (cs, vs) →
      0 < (geoVon D s.platte).htableLen →
      ∀ i < (geoVon D s.platte).htableNbEntries, ∀ j < (geoVon D s.platte).htableNbEntries,
        (s.platte.slot D i).hash ≠ 0 → (s.platte.slot D i).hash = (s.platte.slot D j).hash →
          i = j) := by
  have hs := erreichbar_sysInv D H h
  obtain ⟨p, vol⟩ := s
  cases vol with
  | none => exact ⟨fun _ h => (by cases h), fun _ cs vs hc hl => (hs cs vs hc hl).eindeutig⟩
  | some v =>
    obtain ⟨p₀, hi⟩ := hs
    refine ⟨fun v' hv => ?_, fun h => (by cases h)⟩
    cases hv
    refine ⟨fun i j hi0 hij => ?_, hi.eintraege.eindeutig⟩
    -- a non-empty slot lies in the table and holds its record's digest
    have hlt : ∀ k, v.bt.h k ≠ 0 → k < v.htableNbEntries := fun k hk => by
      by_contra hn
      rw [hi.digest k, if_neg hn] at hk
      exact hk rfl
    have hli := hlt i hi0
    have hlj := hlt j (hij ▸ hi0)
    rw [hi.digest i, if_pos hli] at hi0 hij
    rw [hi.digest j, if_pos hlj] at hij
    exact hi.eintraege.eindeutig i hli j hlj hi0 hij

/-- After a mount and an add on the example volume. -/
theorem digests_eindeutig_lauf :
    ∃ s rs, lauf defs₀ hash₀ ⟨platte₀, none⟩ [.mount mountUmwelt₀,
        .addfile ⟨.addobj, "a", none, none⟩ (glatteUmwelt [1] Chunk.null 0)] = some (s, rs) ∧
      (∀ v, s.vol = some v →
        (∀ i j, v.bt.h i ≠ 0 → v.bt.h i = v.bt.h j → i = j) ∧
        ∀ i < v.htableNbEntries, ∀ j < v.htableNbEntries, (v.hentry i).hash ≠ 0 →
          (v.hentry i).hash = (v.hentry j).hash → i = j) ∧
      (s.vol = none → ∀ cs vs, loadVolCconf s.platte.hdrCommon = some (cs, vs) →
        0 < (geoVon defs₀ s.platte).htableLen →
        ∀ i < (geoVon defs₀ s.platte).htableNbEntries, ∀ j < (geoVon defs₀ s.platte).htableNbEntries,
          (s.platte.slot defs₀ i).hash ≠ 0 →
            (s.platte.slot defs₀ i).hash = (s.platte.slot defs₀ j).hash → i = j) := by
  obtain ⟨s, rs, h⟩ : ∃ s rs, lauf defs₀ hash₀ ⟨platte₀, none⟩ [.mount mountUmwelt₀,
      .addfile ⟨.addobj, "a", none, none⟩ (glatteUmwelt [1] Chunk.null 0)] = some (s, rs) :=
    ⟨_, _, rfl⟩
  exact ⟨s, rs, h, digests_eindeutig defs₀ hash₀
    (erreichbar_lauf defs₀ hash₀ (.start _ frisch_platte₀) h)⟩

/-! ## 3. Write-back -/

/-- An action token: not a mount, not an unmount. -/
def Ereignis.istAktion : Ereignis → Bool
  | .mount _ => false
  | .umount _ => false
  | _ => true

/-- **A session keeps its invariant over any actions.** -/
theorem SitzungInv.nachLauf {p₀ : Platte} :
    ∀ {es : List Ereignis} {p : Platte} {v : Vol} {s' : System} {rs : List (Int × Ausgabe)},
      SitzungInv D p₀ p v → (∀ e ∈ es, e.istAktion = true) →
      lauf D H ⟨p, some v⟩ es = some (s', rs) → ∃ p' v', s' = ⟨p', some v'⟩ ∧ SitzungInv D p₀ p' v'
  | [], p, v, _, _, hi, _, h => by
    simp only [lauf, Option.some.injEq, Prod.mk.injEq] at h
    exact ⟨p, v, h.1.symm, hi⟩
  | e :: es, p, v, s', rs, hi, hes, h => by
    simp only [lauf, Option.bind_eq_some, Option.map_eq_some'] at h
    obtain ⟨⟨s₁, r⟩, h₁, ⟨s₂, rs₂⟩, h₂, he⟩ := h
    cases he
    have ha : schritt D H ⟨p, some v⟩ e = (aktion D H p v e).map fun (p, v, r, a) =>
        (⟨p, some v⟩, r, a) := by
      have := hes e (List.mem_cons_self _ _)
      cases e <;> first | rfl | cases this
    rw [ha, Option.map_eq_some'] at h₁
    obtain ⟨⟨p₁, v₁, r₁, a₁⟩, h₁, he⟩ := h₁
    cases he
    exact SitzungInv.nachLauf (hi.nachAktion h₁) (fun e he => hes e (List.mem_cons_of_mem _ he)) h₂

/-- **The write-back of `umount_shfs` is complete.** Over a session from a mount of a volume the
    tool reached, through any actions: every cache chunk that differs from its chunk on disk is
    marked `CCS_MODIFIED`; after `umount_shfs` the primary region equals the cache, and so does
    the backup region if it equalled the primary one at mount; and every later mount finds the
    records -- digest, container, offset, length, flags -- and the digests of the bucket table
    the session ended with. -/
theorem rueckschreiben_vollstaendig {p₀ p p' : Platte} {v₀ v : Vol} {u : MountUmwelt}
    {es : List Ereignis} {rs : List (Int × Ausgabe)} {w : Nat → Bool}
    (hr : Erreichbar D H ⟨p₀, none⟩) (hm : mountShfs D u p₀ = some v₀)
    (hes : ∀ e ∈ es, e.istAktion = true) (hl : lauf D H ⟨p₀, some v₀⟩ es = some (⟨p, some v⟩, rs))
    (hu : umountShfs w v p = some p') :
    (∀ k < v.htableLen, p.chunk (v.htableRef + k) ≠ v.htableChunkCache k →
      v.htableChunkCacheState k = true) ∧
    (∀ k < v.htableLen, p'.chunk (v.htableRef + k) = v.htableChunkCache k) ∧
    (v.htableBakRef ≠ 0 → (∀ k < v.htableLen, p₀.chunk (v.htableBakRef + k) =
        p₀.chunk (v.htableRef + k)) →
      ∀ k < v.htableLen, p'.chunk (v.htableBakRef + k) = v.htableChunkCache k) ∧
    (∀ u' v', mountShfs D u' p' = some v' →
      ∀ i < v.htableNbEntries, v'.hentry i = v.hentry i ∧ v'.bt.h i = v.bt.h i) := by
  have h₀ := (mount_sitzungInv D (erreichbar_sysInv D H hr) hm).1
  obtain ⟨p₁, v₁, he, hi⟩ := h₀.nachLauf D H hes hl
  cases he
  obtain ⟨-, -, hprim, hbak⟩ := hi.umount hu
  refine ⟨fun k hk hne => ?_, hprim, fun hb hgleich k hk => ?_, fun u' v' hm' i hin => ?_⟩
  · by_contra hs
    exact hne (hi.sauber k hk (by simpa using hs)).symm
  · rw [hbak k hk hb]
    split
    · rfl
    · rename_i hs
      have hres : ∀ c, v.geo.reserviert c → p.chunk c = p₀.chunk c := hi.rahmen
      rw [hres (v.htableBakRef + k) (.inr (.inr ⟨hb, Nat.le_add_right _ _,
          show v.htableBakRef + k < v.htableBakRef + v.htableLen by omega⟩)), hgleich k hk,
        ← hres (v.htableRef + k) (v.geo.reserviert_region hk), hi.sauber k hk (by simpa using hs)]
  · -- the next mount reads the region `umount_shfs` wrote
    obtain ⟨hi', hs'⟩ := mount_sitzungInv D (hi.platteInv hu) hm'
    have hg : v'.geo = v.geo := hi'.geo.trans ((geoVon_hdr D (by rw [(hi.umount hu).1,
      hi.hdr.1]) (by rw [(hi.umount hu).2.1, hi.hdr.2])).trans hi.geo.symm)
    have hnb : v'.htableNbEntries = v.htableNbEntries := congrArg Geo.htableNbEntries hg
    have hrec : v'.hentry i = v.hentry i := by
      have hc := hi.chunk_lt hin
      have hb' : v'.bt.bentry i = v.bt.bentry i := congrFun (congrArg Geo.bentry hg) i
      have hr' : v'.htableRef = v.htableRef := congrArg Geo.htableRef hg
      have hl' : v'.htableLen = v.htableLen := congrArg Geo.htableLen hg
      simp only [Vol.hentry, hb']
      rw [hi'.sauber _ (hl' ▸ hc) (hs' _ (hl' ▸ hc)), hr', hprim _ hc]
    refine ⟨hrec, ?_⟩
    rw [hi'.digest i, hi.digest i, hnb, if_pos hin, if_pos hin, hrec]

/-- A session on the example volume: mount, add `[1]`, unmount. -/
theorem rueckschreiben_vollstaendig_lauf :
    ∃ p v rs p', lauf defs₀ hash₀ ⟨platte₀, some vol₀⟩
        [.addfile ⟨.addobj, "a", none, none⟩ (glatteUmwelt [1] Chunk.null 0)] =
          some (⟨p, some v⟩, rs) ∧ umountShfs (fun _ => true) v p = some p' ∧
      (∀ k < v.htableLen, p.chunk (v.htableRef + k) ≠ v.htableChunkCache k →
        v.htableChunkCacheState k = true) ∧
      (∀ k < v.htableLen, p'.chunk (v.htableRef + k) = v.htableChunkCache k) ∧
      (v.htableBakRef ≠ 0 → (∀ k < v.htableLen, platte₀.chunk (v.htableBakRef + k) =
          platte₀.chunk (v.htableRef + k)) →
        ∀ k < v.htableLen, p'.chunk (v.htableBakRef + k) = v.htableChunkCache k) ∧
      (∀ u' v', mountShfs defs₀ u' p' = some v' →
        ∀ i < v.htableNbEntries, v'.hentry i = v.hentry i ∧ v'.bt.h i = v.bt.h i) := by
  obtain ⟨p, v, rs, p', hl, hu⟩ : ∃ p v rs p', lauf defs₀ hash₀ ⟨platte₀, some vol₀⟩
      [.addfile ⟨.addobj, "a", none, none⟩ (glatteUmwelt [1] Chunk.null 0)] =
        some (⟨p, some v⟩, rs) ∧ umountShfs (fun _ => true) v p = some p' :=
    ⟨_, _, _, _, rfl, rfl⟩
  have hes : ∀ e ∈ [Ereignis.addfile ⟨.addobj, "a", none, none⟩ (glatteUmwelt [1] Chunk.null 0)],
      e.istAktion = true := by decide
  exact ⟨p, v, rs, p', hl, hu, rueckschreiben_vollstaendig defs₀ hash₀
    (.start _ frisch_platte₀) mountShfs_platte₀ hes hl hu⟩

/-- A volume `mount_shfs` accepts but the tools never write: 2 buckets of 9 entries, so a table
    of two chunks `2, 3`, whose record in slot 0 (digest `02`) claims chunk 3 of the table. -/
def platteUeberlappend : Platte :=
  { platte₀ with
    hdrConfig := ⟨2, 0, 2, 9, 1, .first⟩
    chunk := Function.update platte₀.chunk 2 (Chunk.null.setHentry 0 ⟨2, 3, 0, 1, 0, 0, "", "", ""⟩) }

/-- **Without the history of the volume the write-back is not complete.** `load_vol_alist` drops
    the failed registration of the record's container, `actn_rmfile` unregisters table chunk 3, and
    the next add writes its byte `1` there: cache chunk 1, unmodified, differs from disk before
    and after `umount_shfs`. -/
theorem rueckschreiben_ueberlappung :
    ((mountShfs defs₀ mountUmwelt₀ platteUeberlappend).bind fun v₀ =>
      (lauf defs₀ hash₀ ⟨platteUeberlappend, some v₀⟩
        [.rmfile ⟨.rmobj, "02", none, none⟩,
         .addfile ⟨.addobj, "a", none, none⟩ (glatteUmwelt [1] Chunk.null 0)]).bind fun
        | (⟨p, some v⟩, _) => (umountShfs (fun _ => true) v p).map fun p' =>
            (v.htableLen, v.htableChunkCacheState 1, (v.htableChunkCache 1).bytes 0,
              (p.chunk (v.htableRef + 1)).bytes 0, (p'.chunk (v.htableRef + 1)).bytes 0)
        | _ => none) = some (2, false, 0, 1, 1) := by
  decide

/-! ## 4. What the code breaks -/

/-- **An add that fails after its commit leaves its entry without a container.** When
    `actn_addfile` returns a negative code having changed the bucket table, slot `b` holds the
    non-empty digest of its new record, whose container of at least one chunk the allocator no
    longer keeps: `err_release_container` released it while the entry stayed. -/
theorem addfile_fehler_nach_commit {u : AddfileUmwelt} {j : Token} {p p' : Platte} {v v' : Vol}
    {r : Int} (h : actnAddfile D H u j p v = (r, p', v')) (hr : r < 0) (hbt : v'.bt ≠ v.bt) :
    ∃ b, v'.bt.h b ≠ 0 ∧ (v'.hentry b).hash = v'.bt.h b ∧
      0 < (v'.hentry b).fussabdruck v'.chunksize ∧
      ∀ c, (v'.hentry b).chunk ≤ c →
        c < (v'.hentry b).chunk + (v'.hentry b).fussabdruck v'.chunksize → v'.al.belegt c = false := by
  rcases actnAddfile_faelle D H h with ⟨-, -, rfl⟩ | ⟨f, buf, d, b, bt, -, hc0, -, hdg, -, ⟨-, rfl⟩ | ⟨rfl, -⟩⟩
  · exact absurd rfl hbt
  · obtain ⟨hl, ha⟩ := addfileDigest_ok H hdg
    have hd := digest_ne_null hl ha
    obtain ⟨-, -, -, rfl⟩ := shfsBtableAddentry_some ha
    have hrec : (eintragen v { v.bt with h := Function.update v.bt.h b d } b
        (neuerHentry D j u.zeit d (v.cchk f) f.length)).hentry b =
        neuerHentry D j u.zeit d (v.cchk f) f.length := Vol.hentry_storeHentry_self _ _ _
    have hcs : v.csize f ≠ 0 := fun h0 => hc0 (by rw [Vol.cchk, h0, shfsAlistFindFree_zero])
    have hfp : (neuerHentry D j u.zeit d (v.cchk f) f.length).fussabdruck v.chunksize = v.csize f :=
      rfl
    have hfrei := Alist.frei_iff.mp (shfsAlistFindFree_spec hc0).2.2
    refine ⟨b, ?_, ?_, ?_, fun c h1 h2 => ?_⟩
    · show Function.update v.bt.h b d b ≠ 0
      rw [Function.update_same]; exact hd
    · rw [hrec]
      show d = Function.update v.bt.h b d b
      rw [Function.update_same]
    · rw [hrec]; exact Nat.pos_of_ne_zero hcs
    · rw [hrec] at h1 h2
      exact hfrei c h1 (by rw [← hfp]; exact h2)
  · omega

/-- On the mounted example volume, the add of `[1]` whose chunk write fails. -/
theorem addfile_fehler_nach_commit_vol₀ :
    ∃ b, (actnAddfile defs₀ hash₀ { glatteUmwelt [1] Chunk.null 0 with schreib := fun _ => false }
        ⟨.addobj, "a", none, none⟩ platte₀ vol₀).2.2.bt.h b ≠ 0 ∧
      ((actnAddfile defs₀ hash₀ { glatteUmwelt [1] Chunk.null 0 with schreib := fun _ => false }
        ⟨.addobj, "a", none, none⟩ platte₀ vol₀).2.2.hentry b).hash =
        (actnAddfile defs₀ hash₀ { glatteUmwelt [1] Chunk.null 0 with schreib := fun _ => false }
          ⟨.addobj, "a", none, none⟩ platte₀ vol₀).2.2.bt.h b ∧
      0 < ((actnAddfile defs₀ hash₀ { glatteUmwelt [1] Chunk.null 0 with schreib := fun _ => false }
        ⟨.addobj, "a", none, none⟩ platte₀ vol₀).2.2.hentry b).fussabdruck 4096 ∧
      ∀ c, ((actnAddfile defs₀ hash₀ { glatteUmwelt [1] Chunk.null 0 with schreib := fun _ => false }
          ⟨.addobj, "a", none, none⟩ platte₀ vol₀).2.2.hentry b).chunk ≤ c →
        c < ((actnAddfile defs₀ hash₀ { glatteUmwelt [1] Chunk.null 0 with schreib := fun _ => false }
          ⟨.addobj, "a", none, none⟩ platte₀ vol₀).2.2.hentry b).chunk +
          ((actnAddfile defs₀ hash₀ { glatteUmwelt [1] Chunk.null 0 with schreib := fun _ => false }
            ⟨.addobj, "a", none, none⟩ platte₀ vol₀).2.2.hentry b).fussabdruck 4096 →
        (actnAddfile defs₀ hash₀ { glatteUmwelt [1] Chunk.null 0 with schreib := fun _ => false }
          ⟨.addobj, "a", none, none⟩ platte₀ vol₀).2.2.al.belegt c = false := by
  exact addfile_fehler_nach_commit defs₀ hash₀ (r := -1) (Prod.ext (by decide) rfl) (by decide)
    fun e => absurd (congrArg (fun bt => bt.h 0) e) (by decide)

/-- **A stored object overwritten.** On the example volume: the add of `A = [1]` fails writing
    after its commit, the add of `B = [2]` succeeds in the chunk the failure released, removing
    `A` (digest `02`) releases that chunk again, and adding `A` anew writes `[1]` over it: the
    export of `B` (digest `03`), never removed, writes `[1]`. -/
theorem lauf_ueberschreibt :
    (lauf defs₀ hash₀ ⟨platte₀, none⟩
      [.mount mountUmwelt₀,
       .addfile ⟨.addobj, "a", none, none⟩
         { glatteUmwelt [1] Chunk.null 0 with schreib := fun _ => false },
       .addfile ⟨.addobj, "b", none, none⟩ (glatteUmwelt [2] Chunk.null 0),
       .rmfile ⟨.rmobj, "02", none, none⟩,
       .addfile ⟨.addobj, "a", none, none⟩ (glatteUmwelt [1] Chunk.null 0),
       .catfile ⟨.catobj, "03", none, none⟩ ⟨some Chunk.null, fun _ => true, fun _ => true⟩]).map
      (fun x => x.2) =
    some [(0, .keine), (-1, .keine), (0, .keine), (0, .keine), (0, .keine), (0, .bytes [[1]])] := by
  decide

/-- **`actn_rmfile` keeps the DEFAULT mark.** Removing the entry of slot `b`, the default one,
    empties its slot and its record's digest but leaves `def_bentry` at `b` and the record's flags,
    DEFAULT among them, as they were. -/
theorem actnRmfile_behaelt_default {j : Token} {v v' : Vol} {b d : Nat}
    (h : actnRmfile j v = (0, v')) (hdef : v.defBentry = some b)
    (hd : hashParse j.path v.hlen = some d) (hb : shfsBtableLookup v.bt d = some b)
    (hflag : (v.hentry b).isDefault D = true) :
    v'.defBentry = some b ∧ v'.bt.h b = 0 ∧ (v'.hentry b).hash = 0 ∧
      (v'.hentry b).isDefault D = true := by
  rcases actnRmfile_faelle h with ⟨h0, -⟩ | ⟨d', b', al, hd', hb', -, -, rfl⟩
  · exact absurd h0 (by decide)
  · rw [hd, Option.some.injEq] at hd'
    subst hd'
    rw [hb, Option.some.injEq] at hb'
    subst hb'
    simp only [Vol.markModified_defBentry, Vol.markModified_bt, Vol.storeHentry_bt,
      Vol.hentry_markModified, Vol.hentry_storeHentry_self]
    exact ⟨hdef, Function.update_same _ _ _, trivial, hflag⟩

/-- On the example volume with `[1]` added and made the default object. -/
theorem actnRmfile_behaelt_default_vol₀ :
    (actnRmfile ⟨.rmobj, "02", none, none⟩ (actnSetdefault defs₀ ⟨.setdefobj, "02", none, none⟩
        (actnAddfile defs₀ hash₀ (glatteUmwelt [1] Chunk.null 0) ⟨.addobj, "a", none, none⟩
          platte₀ vol₀).2.2).2).2.defBentry = some 0 ∧
    (actnRmfile ⟨.rmobj, "02", none, none⟩ (actnSetdefault defs₀ ⟨.setdefobj, "02", none, none⟩
        (actnAddfile defs₀ hash₀ (glatteUmwelt [1] Chunk.null 0) ⟨.addobj, "a", none, none⟩
          platte₀ vol₀).2.2).2).2.bt.h 0 = 0 ∧
    ((actnRmfile ⟨.rmobj, "02", none, none⟩ (actnSetdefault defs₀ ⟨.setdefobj, "02", none, none⟩
        (actnAddfile defs₀ hash₀ (glatteUmwelt [1] Chunk.null 0) ⟨.addobj, "a", none, none⟩
          platte₀ vol₀).2.2).2).2.hentry 0).hash = 0 ∧
    ((actnRmfile ⟨.rmobj, "02", none, none⟩ (actnSetdefault defs₀ ⟨.setdefobj, "02", none, none⟩
        (actnAddfile defs₀ hash₀ (glatteUmwelt [1] Chunk.null 0) ⟨.addobj, "a", none, none⟩
          platte₀ vol₀).2.2).2).2.hentry 0).isDefault defs₀ = true := by
  exact actnRmfile_behaelt_default defs₀ (d := 2) (Prod.ext (by decide) rfl) (by decide) (by decide)
    (by decide) (by decide)

end Minicache.Shfs
