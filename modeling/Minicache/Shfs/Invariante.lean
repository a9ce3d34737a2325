/-
  File:      Minicache/Shfs/Invariante.lean
  Subject:   What a session of the tool keeps: from `mount_shfs` through any actions to
             `umount_shfs`, and from one session to the next.

  * `Geo`, `Vol.geo`, `geoVon` -- the fields of `shfs_vol` no action changes, and the values
    `mount_shfs` gives them from the two headers;
  * `Eintraege` -- what every record of the hash table keeps: its payload clear of the reserved
    regions (labels, primary and backup hash table), a non-empty digest in its own bucket, and
    no non-empty digest twice;
  * `PlatteInv` -- `Eintraege` for the records of the primary region on disk, between sessions;
  * **`SitzungInv`** -- during a session started on the members `p₀`: the geometry of `p₀`, the
    reserved regions registered and untouched on disk, every unmodified cache chunk equal to its
    chunk on disk, `Eintraege` for the cached records, the bucket table holding their
    digests, and an allocator of a known kind;
  * `mount_sitzungInv`, `SitzungInv.nachAktion`, `SitzungInv.umount`, `SitzungInv.platteInv` --
    mount makes `SitzungInv` from `PlatteInv`, every action keeps it, and unmount writes back the
    cache (`SitzungInv.slot_umount`), nothing outside the reserved regions
    (`SitzungInv.umount_rahmen`), and leaves `PlatteInv`.

  NOT here: the bytes of payloads. The invariants speak of where payloads lie, not of what they
  hold.
-/
import Minicache.Shfs.Ausgang

namespace Minicache.Shfs

/-! ## 1. Geometry -/

/-- The fields of `shfs_vol` that `mount_shfs` sets and no action changes. -/
structure Geo where
  chunksize : Nat
  volsize : Nat
  htableRef : Nat
  htableBakRef : Nat
  htableNbBuckets : Nat
  htableNbEntriesPerBucket : Nat
  htableNbEntries : Nat
  htableNbEntriesPerChunk : Nat
  htableLen : Nat
  hlen : Nat
  allocator : Allocator
  btNbBkts : Nat
  btElPerBkt : Nat
  btHlen : Nat
  bentry : Nat → Bentry
  alVolsize : Nat
  alAllocator : Allocator

/-- The geometry of a mounted volume. -/
def Vol.geo (v : Vol) : Geo :=
  ⟨v.chunksize, v.volsize, v.htableRef, v.htableBakRef, v.htableNbBuckets,
   v.htableNbEntriesPerBucket, v.htableNbEntries, v.htableNbEntriesPerChunk, v.htableLen, v.hlen,
   v.allocator, v.bt.nbBkts, v.bt.elPerBkt, v.bt.hlen, v.bt.bentry, v.al.volsize, v.al.allocator⟩

variable (D : ShfsDefs)

/-- The geometry `mount_shfs` reads from the headers of `p`: slot `i < htable_nb_entries` at its
    row-major place, every other bentry as `shfs_alloc_btable` left it. -/
def geoVon (p : Platte) : Geo :=
  let c := p.hdrConfig
  let cs := shfsChunksize p.hdrCommon
  let epc := shfsHentriesPerChunk D cs
  ⟨cs, p.hdrCommon.volSize, c.htableRef, c.htableBakRef, c.htableBucketCount,
   c.htableEntriesPerBucket, shfsHtableNbEntries c, epc, shfsHtableSizeChunks D c cs, c.hlen,
   c.allocator, c.htableBucketCount, c.htableEntriesPerBucket, c.hlen,
   fun i => if i < shfsHtableNbEntries c then ⟨shfsHtableChunkNo i epc, shfsHtableEntryOffset D i epc⟩
     else ⟨0, 0⟩,
   p.hdrCommon.volSize, c.allocator⟩

/-- Chunk `c` is reserved: a label chunk, or in the primary or (if there is one) the backup
    hash-table region. -/
def Geo.reserviert (g : Geo) (c : Nat) : Prop :=
  c < 2 ∨ (g.htableRef ≤ c ∧ c < g.htableRef + g.htableLen) ∨
    (g.htableBakRef ≠ 0 ∧ g.htableBakRef ≤ c ∧ c < g.htableBakRef + g.htableLen)

/-- The bucket of digest `d` under geometry `g`. -/
def Geo.bucket (g : Geo) (d : Nat) : Nat :=
  Btable.bucket ⟨g.btNbBkts, g.btElPerBkt, g.btHlen, fun _ => 0, g.bentry⟩ d

/-- The record of slot `i` in the primary region of `p`, where `mount_shfs` finds it. -/
def Platte.slot (p : Platte) (i : Nat) : Hentry :=
  slotHentry D p.hdrConfig.htableRef (shfsHentriesPerChunk D (shfsChunksize p.hdrCommon)) p i

theorem geoVon_hdr {p p' : Platte} (h1 : p'.hdrCommon = p.hdrCommon)
    (h2 : p'.hdrConfig = p.hdrConfig) : geoVon D p' = geoVon D p := by
  simp only [geoVon, h1, h2]

theorem geoVon_bentry {p : Platte} {i : Nat} (hi : i < (geoVon D p).htableNbEntries) :
    (geoVon D p).bentry i = ⟨i / (geoVon D p).htableNbEntriesPerChunk,
      shfsHtableEntryOffset D i (geoVon D p).htableNbEntriesPerChunk⟩ := by
  simp only [geoVon] at hi ⊢
  rw [if_pos hi]
  rfl

/-- **Distinct slots have distinct records.** -/
theorem geoVon_bentry_inj {i j : Nat} (hi : i < (geoVon D p).htableNbEntries)
    (hj : j < (geoVon D p).htableNbEntries) (h : (geoVon D p).bentry i = (geoVon D p).bentry j) :
    i = j := by
  rw [geoVon_bentry D hi, geoVon_bentry D hj] at h
  simp only [Bentry.mk.injEq, shfsHtableEntryOffset] at h
  rw [← Nat.div_add_mod i (geoVon D p).htableNbEntriesPerChunk,
    ← Nat.div_add_mod j (geoVon D p).htableNbEntriesPerChunk, h.1,
    Nat.eq_of_mul_eq_mul_right D.hentrySize_pos h.2]

/-! ### What a valid geometry gives -/

section Gueltig

variable {p : Platte} (hlen : 0 < (geoVon D p).htableLen)
include hlen

theorem geoVon_epc_pos : 0 < (geoVon D p).htableNbEntriesPerChunk := by
  refine Nat.pos_of_ne_zero fun h0 => ?_
  simp only [geoVon, shfsHtableSizeChunks, divRoundUp] at hlen h0
  rw [h0, Nat.div_zero] at hlen
  exact Nat.lt_irrefl 0 hlen

theorem geoVon_nbBkts_pos : 0 < (geoVon D p).btNbBkts := by
  refine Nat.pos_of_ne_zero fun h0 => ?_
  simp only [geoVon, shfsHtableSizeChunks, shfsHtableNbEntries] at h0 hlen
  simp [h0] at hlen

/-- A slot lies in a chunk of the region. -/
theorem geoVon_chunk_lt {i : Nat} (hi : i < (geoVon D p).htableNbEntries) :
    i / (geoVon D p).htableNbEntriesPerChunk < (geoVon D p).htableLen := by
  have he := geoVon_epc_pos D hlen
  simp only [geoVon, shfsHtableSizeChunks] at he hi ⊢
  rw [lt_divRoundUp_iff he]
  exact lt_of_le_of_lt (Nat.div_mul_le_self _ _) hi

/-- The slots of bucket `bucket(d)` lie in the table. -/
theorem geoVon_bucket_lt (d k : Nat) (hk : k < (geoVon D p).btElPerBkt) :
    (geoVon D p).bucket d * (geoVon D p).btElPerBkt + k < (geoVon D p).htableNbEntries := by
  have hb : (geoVon D p).bucket d < (geoVon D p).btNbBkts :=
    Nat.mod_lt _ (geoVon_nbBkts_pos D hlen)
  calc (geoVon D p).bucket d * (geoVon D p).btElPerBkt + k
      < ((geoVon D p).bucket d + 1) * (geoVon D p).btElPerBkt := by rw [Nat.succ_mul]; omega
    _ ≤ (geoVon D p).btNbBkts * (geoVon D p).btElPerBkt := Nat.mul_le_mul_right _ hb

end Gueltig

/-! ## 2. The invariants -/

/-- What every record of a hash table with geometry `g` keeps, `rec i` being the record of
    slot `i`. -/
structure Eintraege (g : Geo) (rec : Nat → Hentry) : Prop where
  /-- Its payload is clear of the reserved regions. -/
  fussabdruck : ∀ i < g.htableNbEntries, ∀ c, (rec i).chunk ≤ c →
    c < (rec i).chunk + (rec i).fussabdruck g.chunksize → ¬ g.reserviert c
  /-- A non-empty digest sits in its own bucket. -/
  platz : ∀ i < g.htableNbEntries, (rec i).hash ≠ 0 → g.bucket (rec i).hash = i / g.btElPerBkt
  /-- No non-empty digest twice. -/
  eindeutig : ∀ i < g.htableNbEntries, ∀ j < g.htableNbEntries, (rec i).hash ≠ 0 →
    (rec i).hash = (rec j).hash → i = j

/-- `e'` agrees with `e` in what `Eintraege` reads: digest and payload place. -/
def GleicherKern (e e' : Hentry) : Prop :=
  e'.hash = e.hash ∧ e'.chunk = e.chunk ∧ e'.offset = e.offset ∧ e'.len = e.len

theorem Eintraege.kern {g : Geo} {rec rec' : Nat → Hentry} (h : Eintraege g rec)
    (hk : ∀ i < g.htableNbEntries, GleicherKern (rec i) (rec' i)) : Eintraege g rec' where
  fussabdruck i hi c := by
    obtain ⟨-, h1, h2, h3⟩ := hk i hi
    simp only [Hentry.fussabdruck, h1, h2, h3]
    exact h.fussabdruck i hi c
  platz i hi := by rw [(hk i hi).1]; exact h.platz i hi
  eindeutig i hi j hj := by rw [(hk i hi).1, (hk j hj).1]; exact h.eindeutig i hi j hj

/-- One record replaced: `e` at slot `b`, its payload clear of the reserved regions, its digest
    (if not empty) in its own bucket and in no other record. -/
theorem Eintraege.setzen {g : Geo} {rec rec' : Nat → Hentry} {b : Nat} {e : Hentry}
    (h : Eintraege g rec) (hb : b < g.htableNbEntries)
    (hrec : ∀ j < g.htableNbEntries, rec' j = if j = b then e else rec j)
    (hfuss : ∀ c, e.chunk ≤ c → c < e.chunk + e.fussabdruck g.chunksize → ¬ g.reserviert c)
    (hplatz : e.hash ≠ 0 → g.bucket e.hash = b / g.btElPerBkt)
    (hneu : ∀ j < g.htableNbEntries, j ≠ b → e.hash ≠ 0 → (rec j).hash ≠ e.hash) :
    Eintraege g rec' where
  fussabdruck j hj c := by
    rw [hrec j hj]
    split
    · exact hfuss c
    · exact h.fussabdruck j hj c
  platz j hj := by
    rw [hrec j hj]
    split
    · subst_vars; exact hplatz
    · exact h.platz j hj
  eindeutig j hj k hk := by
    rw [hrec j hj, hrec k hk]
    split <;> split
    · intros; subst_vars; rfl
    · exact fun h0 he => absurd he.symm (hneu k hk ‹_› h0)
    · exact fun h0 he => absurd he (hneu j hj ‹_› (he ▸ h0))
    · exact h.eindeutig j hj k hk

/-- **Between sessions**: on a volume whose headers the tool can mount, the records of the
    primary region keep `Eintraege`. -/
def PlatteInv (p : Platte) : Prop :=
  ∀ cs vs, loadVolCconf p.hdrCommon = some (cs, vs) → 0 < (geoVon D p).htableLen →
    Eintraege (geoVon D p) (p.slot D)

/-- A chunk of the cache without `CCS_MODIFIED` is its chunk on the members `p`. -/
def Sauber (p : Platte) (v : Vol) : Prop :=
  ∀ k < v.htableLen, v.htableChunkCacheState k = false →
    v.htableChunkCache k = p.chunk (v.htableRef + k)

/-- **During a session** started on the members `p₀`, with the members `p` now. -/
structure SitzungInv (p₀ p : Platte) (v : Vol) : Prop where
  geo : v.geo = geoVon D p₀
  chunksize_pos : 0 < v.chunksize
  len_pos : 0 < v.htableLen
  hdr : p.hdrCommon = p₀.hdrCommon ∧ p.hdrConfig = p₀.hdrConfig
  /-- The reserved chunks on disk are those of `p₀`. -/
  rahmen : ∀ c, v.geo.reserviert c → p.chunk c = p₀.chunk c
  /-- The allocator keeps the reserved chunks. -/
  belegt : ∀ c, v.geo.reserviert c → v.al.belegt c = true
  /-- The backup region does not overlap the primary one. -/
  getrennt : v.htableBakRef ≠ 0 →
    v.htableBakRef + v.htableLen ≤ v.htableRef ∨ v.htableRef + v.htableLen ≤ v.htableBakRef
  sauber : Sauber p v
  eintraege : Eintraege v.geo v.hentry
  /-- The bucket table holds the digests of the records, and no other. -/
  digest : ∀ i, v.bt.h i = if i < v.htableNbEntries then (v.hentry i).hash else 0
  /-- The headers name an allocator `shfs_alloc_alist` knows. -/
  allocator_bekannt : (geoVon D p₀).alAllocator ≠ .unbekannt

section Sitzung

variable {D} {p₀ p : Platte} {v : Vol}

theorem SitzungInv.len_pos' (hi : SitzungInv D p₀ p v) : 0 < (geoVon D p₀).htableLen :=
  hi.geo ▸ hi.len_pos

/-- A mounted volume has what `actn_addfile` asks of the volume itself: chunks of positive size
    and an allocator of a known kind over its `volsize` chunks. -/
theorem SitzungInv.addfile_bereit (hi : SitzungInv D p₀ p v) :
    0 < v.chunksize ∧ v.al.volsize = v.volsize ∧ v.al.allocator ≠ .unbekannt :=
  ⟨hi.chunksize_pos, (congrArg Geo.alVolsize hi.geo).trans (congrArg Geo.volsize hi.geo).symm,
    fun h => hi.allocator_bekannt ((congrArg Geo.alAllocator hi.geo).symm.trans h)⟩

theorem SitzungInv.bentry_inj (hi : SitzungInv D p₀ p v) {i j : Nat} (hi' : i < v.htableNbEntries)
    (hj : j < v.htableNbEntries) (h : v.bt.bentry i = v.bt.bentry j) : i = j := by
  have hg := hi.geo
  have hnb : v.htableNbEntries = (geoVon D p₀).htableNbEntries := congrArg Geo.htableNbEntries hg
  have hb : v.bt.bentry = (geoVon D p₀).bentry := congrArg Geo.bentry hg
  rw [hb] at h
  exact geoVon_bentry_inj D (hnb ▸ hi') (hnb ▸ hj) h

/-- The record of slot `i` lies in chunk `i / entries_per_chunk` of the region. -/
theorem SitzungInv.bentry_eq (hi : SitzungInv D p₀ p v) {i : Nat} (hi' : i < v.htableNbEntries) :
    v.bt.bentry i = ⟨i / v.htableNbEntriesPerChunk,
      shfsHtableEntryOffset D i v.htableNbEntriesPerChunk⟩ := by
  have hg := hi.geo
  have hnb : v.htableNbEntries = (geoVon D p₀).htableNbEntries := congrArg Geo.htableNbEntries hg
  have he : v.htableNbEntriesPerChunk = (geoVon D p₀).htableNbEntriesPerChunk :=
    congrArg Geo.htableNbEntriesPerChunk hg
  rw [show v.bt.bentry i = v.geo.bentry i from rfl, hg, he]
  exact geoVon_bentry D (hnb ▸ hi')

theorem SitzungInv.chunk_lt (hi : SitzungInv D p₀ p v) {i : Nat} (hi' : i < v.htableNbEntries) :
    (v.bt.bentry i).hentryHtchunk < v.htableLen := by
  have hg := hi.geo
  have hnb : v.htableNbEntries = (geoVon D p₀).htableNbEntries := congrArg Geo.htableNbEntries hg
  have he : v.htableNbEntriesPerChunk = (geoVon D p₀).htableNbEntriesPerChunk :=
    congrArg Geo.htableNbEntriesPerChunk hg
  have hl : v.htableLen = (geoVon D p₀).htableLen := congrArg Geo.htableLen hg
  rw [hi.bentry_eq hi', hl, he]
  exact geoVon_chunk_lt D hi.len_pos' (hnb ▸ hi')

/-- Slot `basis(d) + k` of a bucket lies in the table. -/
theorem SitzungInv.basis_lt (hi : SitzungInv D p₀ p v) (d : Nat) {k : Nat}
    (hk : k < v.bt.elPerBkt) : v.bt.basis d + k < v.htableNbEntries := by
  have hg := hi.geo
  have := geoVon_bucket_lt D hi.len_pos' d k (by rw [← hg]; exact hk)
  rw [← hg] at this
  exact this

theorem SitzungInv.lookup_lt (hi : SitzungInv D p₀ p v) {d b : Nat}
    (h : shfsBtableLookup v.bt d = some b) : b < v.htableNbEntries := by
  obtain ⟨-, h1, h2⟩ := shfsBtableLookup_some h
  have := hi.basis_lt d (k := b - v.bt.basis d) (by omega)
  omega

/-- `lookup` of the digest a slot holds finds that slot: the digest sits in the slot's bucket,
    and in no other slot. -/
theorem SitzungInv.lookup_h (hi : SitzungInv D p₀ p v) {i : Nat} (h0 : v.bt.h i ≠ 0) :
    shfsBtableLookup v.bt (v.bt.h i) = some i := by
  have hd := hi.digest i
  have hin : i < v.htableNbEntries := by
    by_contra hn
    rw [if_neg hn] at hd
    exact h0 hd
  rw [if_pos hin] at hd
  have hpl : v.bt.bucket (v.bt.h i) = i / v.bt.elPerBkt := hd ▸ hi.eintraege.platz i hin (hd ▸ h0)
  have he : 0 < v.bt.elPerBkt := by
    have hg := hi.geo
    have h1 : v.bt.elPerBkt = (geoVon D p₀).btElPerBkt := congrArg Geo.btElPerBkt hg
    have h2 : v.htableNbEntries = (geoVon D p₀).htableNbEntries := congrArg Geo.htableNbEntries hg
    simp only [geoVon, shfsHtableNbEntries] at h1 h2
    rw [h1]
    exact Nat.pos_of_mul_pos_left (h2 ▸ Nat.lt_of_le_of_lt (Nat.zero_le i) hin)
  have hb : v.bt.basis (v.bt.h i) = i / v.bt.elPerBkt * v.bt.elPerBkt := by rw [Btable.basis, hpl]
  refine shfsBtableLookup_erste rfl (hb ▸ Nat.div_mul_le_self _ _)
    (hb ▸ Nat.lt_div_mul_add he) fun j hj1 hj2 hj => Nat.ne_of_lt hj2 ?_
  have hjn : j < v.htableNbEntries := Nat.lt_trans hj2 hin
  have hdj := hi.digest j
  rw [if_pos hjn] at hdj
  exact hi.eintraege.eindeutig j hjn i hin (hdj ▸ hj ▸ h0) (hdj ▸ hd ▸ hj)

end Sitzung

/-! ## 3. Stores through a bentry -/

theorem Vol.hentry_speichern (w : Vol) {i j : Nat} (e : Hentry)
    (hinj : w.bt.bentry j = w.bt.bentry i → j = i) :
    (w.storeHentry i e).hentry j = if j = i then e else w.hentry j := by
  split
  · subst_vars; exact w.hentry_storeHentry_self _ e
  · exact w.hentry_storeHentry_ne e fun h => ‹¬j = i› (hinj h)

/-- A store through a bentry whose chunk is then marked modified keeps `Sauber`. -/
theorem Sauber.speichern {p : Platte} {w : Vol} (h : Sauber p w) (i : Nat) (e : Hentry) :
    Sauber p ((w.storeHentry i e).markModified (w.bt.bentry i).hentryHtchunk) := by
  intro k hk hs
  have hne : k ≠ (w.bt.bentry i).hentryHtchunk := fun hk' => by simp [hk'] at hs
  simp only [Vol.markModified_state, Vol.storeHentry_state, Function.update_noteq hne] at hs
  simp only [Vol.markModified_cache, Vol.storeHentry, Function.update_noteq hne]
  exact h k hk hs

theorem Sauber.platte {p p' : Platte} {v : Vol} (h : Sauber p v)
    (hp : ∀ k < v.htableLen, p'.chunk (v.htableRef + k) = p.chunk (v.htableRef + k)) :
    Sauber p' v := fun k hk hs => (h k hk hs).trans (hp k hk).symm

section Sitzung

variable {D} {p₀ p : Platte} {v : Vol}

/-- A region chunk is reserved. -/
theorem Geo.reserviert_region (g : Geo) {k : Nat} (hk : k < g.htableLen) :
    g.reserviert (g.htableRef + k) := .inr (.inl ⟨Nat.le_add_right _ _, by omega⟩)

/-- A chunk the allocator has free is not reserved. -/
theorem SitzungInv.nicht_reserviert (hi : SitzungInv D p₀ p v) {s n c : Nat}
    (hf : v.al.frei s n = true) (h1 : s ≤ c) (h2 : c < s + n) : ¬ v.geo.reserviert c :=
  fun hr => by
    have := hi.belegt c hr
    rw [Alist.frei_iff.mp hf c h1 h2] at this
    exact Bool.false_ne_true this

/-- Another allocator with the volume size and policy of `v`'s, keeping the reserved chunks. -/
theorem SitzungInv.mit_al (hi : SitzungInv D p₀ p v) {al : Alist} (hv : al.volsize = v.al.volsize)
    (ha : al.allocator = v.al.allocator) (hb : ∀ c, v.geo.reserviert c → al.belegt c = true) :
    SitzungInv D p₀ p { v with al := al } := by
  have hg : ({ v with al := al } : Vol).geo = v.geo := by simp only [Vol.geo, hv, ha]
  exact { hi with
    geo := hg.trans hi.geo
    belegt := hb
    eintraege := hg ▸ hi.eintraege }

/-- The bucket table after one slot `b` took the digest of its new record `e`. -/
theorem SitzungInv.digest_setzen (hi : SitzungInv D p₀ p v) {v' : Vol} {b : Nat} {e : Hentry}
    (hb : b < v.htableNbEntries) (hnb : v'.htableNbEntries = v.htableNbEntries)
    (hrec : ∀ j < v.htableNbEntries, v'.hentry j = if j = b then e else v.hentry j)
    (hh : v'.bt.h = Function.update v.bt.h b e.hash) :
    ∀ j, v'.bt.h j = if j < v'.htableNbEntries then (v'.hentry j).hash else 0 := by
  intro j
  rw [hh, hnb]
  by_cases hjb : j = b
  · subst hjb
    rw [Function.update_same, if_pos hb, hrec j hb, if_pos rfl]
  · rw [Function.update_noteq hjb, hi.digest j]
    split
    · rw [hrec j ‹_›, if_neg hjb]
    · rfl

/-- **The commit of `actn_addfile` keeps the session invariant**: the new record `e` goes to the
    free slot `b` of the bucket of its digest `d`, which was absent, and its payload to a range
    the allocator had free, the only place the members changed. -/
theorem SitzungInv.commit (hi : SitzungInv D p₀ p v) {p' : Platte} {d b cchk csize : Nat}
    {bt : Btable} {e : Hentry} (hl : shfsBtableLookup v.bt d = none)
    (ha : shfsBtableAddentry v.bt d = some (b, bt)) (he : e.hash = d) (hc : e.chunk = cchk)
    (hn : e.fussabdruck v.chunksize = csize) (hf : v.al.frei cchk csize = true)
    (hp : p.gleichAusser p' cchk csize) : SitzungInv D p₀ p' (eintragen v bt b e) := by
  obtain ⟨-, hb1, hb2, rfl⟩ := shfsBtableAddentry_some ha
  have hd : d ≠ 0 := digest_ne_null hl ha
  have hb : b < v.htableNbEntries := by
    have := hi.basis_lt d (k := b - v.bt.basis d) (by omega)
    omega
  have hrec : ∀ j < v.htableNbEntries, (eintragen v { v.bt with h := Function.update v.bt.h b d }
      b e).hentry j = if j = b then e else v.hentry j :=
    fun j hj => Vol.hentry_speichern _ e fun h => hi.bentry_inj hj hb h
  have hres : ∀ c, v.geo.reserviert c → p'.chunk c = p.chunk c := fun c hr =>
    hp.2.2 c (by
      by_contra hc'
      exact hi.nicht_reserviert hf (by omega) (by omega) hr)
  have hbucket : v.bt.bucket d = b / v.bt.elPerBkt :=
    (Nat.div_eq_of_lt_le (show v.bt.bucket d * v.bt.elPerBkt ≤ b from hb1)
      (by rw [Nat.succ_mul]; exact hb2)).symm
  refine
    { geo := hi.geo
      chunksize_pos := hi.chunksize_pos
      len_pos := hi.len_pos
      hdr := ⟨hp.1.trans hi.hdr.1, hp.2.1.trans hi.hdr.2⟩
      rahmen := fun c hr => (hres c hr).trans (hi.rahmen c hr)
      belegt := hi.belegt
      getrennt := hi.getrennt
      sauber := (Sauber.speichern (show Sauber p ({ v with bt := { v.bt with
          h := Function.update v.bt.h b d } } : Vol) from hi.sauber) b e).platte fun k hk =>
        hres _ (v.geo.reserviert_region hk)
      eintraege := hi.eintraege.setzen hb hrec (fun c h1 h2 => ?_) (fun _ => he ▸ hbucket)
        fun j hj hjb _ hjd => ?_
      digest := hi.digest_setzen hb rfl hrec (by rw [he]; rfl)
      allocator_bekannt := hi.allocator_bekannt }
  · rw [hc] at h1
    exact hi.nicht_reserviert hf h1 (by rw [← hc, ← hn]; exact h2)
  · -- a record with digest `d` would sit in the bucket of `d`, where `lookup` found none
    rw [he] at hjd
    have hpl := hi.eintraege.platz j hj (by rw [hjd]; exact hd)
    rw [hjd] at hpl
    have hj1 : v.bt.basis d ≤ j := by
      rw [Btable.basis, show v.bt.bucket d = j / v.bt.elPerBkt from hpl]
      exact Nat.div_mul_le_self j _
    have hj2 : j < v.bt.basis d + v.bt.elPerBkt := by
      rw [Btable.basis, show v.bt.bucket d = j / v.bt.elPerBkt from hpl, ← Nat.succ_mul]
      exact Nat.lt_mul_of_div_lt (Nat.lt_succ_self _) (by omega)
    have hh := shfsBtableLookup_none hl (j - v.bt.basis d) (by omega)
    rw [Nat.add_sub_cancel' hj1, hi.digest j, if_pos (show j < v.htableNbEntries from hj)] at hh
    exact hh hjd

variable {H : List UInt8 → Nat}

/-- **`actn_addfile` keeps the session invariant**, however it ends. -/
theorem SitzungInv.addfile (hi : SitzungInv D p₀ p v) {u : AddfileUmwelt} {j : Token}
    {p' : Platte} {v' : Vol} {r : Int} (h : actnAddfile D H u j p v = (r, p', v')) :
    SitzungInv D p₀ p' v' := by
  rcases actnAddfile_faelle D H h with ⟨-, rfl, rfl⟩ | ⟨f, buf, d, b, bt, -, hc0, -, hdg, hp, hv⟩
  · exact hi
  obtain ⟨hl, ha⟩ := addfileDigest_ok H hdg
  have hc : SitzungInv D p₀ p' (eintragen v bt b (neuerHentry D j u.zeit d (v.cchk f) f.length)) :=
    hi.commit hl ha rfl rfl (by simp [Hentry.fussabdruck, neuerHentry, Vol.csize])
      (shfsAlistFindFree_spec hc0).2.2 hp
  rcases hv with ⟨-, rfl⟩ | ⟨-, rfl⟩
  · exact hc
  · rw [eintragen_reservieren]
    obtain ⟨h1, h2, h3⟩ := register_getD v.al (v.cchk f) (v.csize f)
    exact hc.mit_al h1 h2 fun c hr => h3 c (hi.belegt c hr)

/-- **`actn_rmfile` keeps the session invariant**: the range it releases is the payload of a
    record, clear of the reserved regions. -/
theorem SitzungInv.rmfile (hi : SitzungInv D p₀ p v) {j : Token} {v' : Vol} {r : Int}
    (h : actnRmfile j v = (r, v')) : SitzungInv D p₀ p v' := by
  rcases actnRmfile_faelle h with ⟨-, rfl⟩ | ⟨d, b, al, -, hb, hal, -, rfl⟩
  · exact hi
  obtain ⟨-, rfl⟩ := shfsAlistUnregister_eq hal
  have hblt := hi.lookup_lt hb
  exact
    { geo := hi.geo
      chunksize_pos := hi.chunksize_pos
      len_pos := hi.len_pos
      hdr := hi.hdr
      rahmen := hi.rahmen
      belegt := fun c hr => by
        have hn := hi.eintraege.fussabdruck b hblt c
        simp only [Vol.markModified_al, Vol.storeHentry_al, hi.belegt c hr, Bool.true_and,
          Bool.not_eq_true', inBereich, Bool.and_eq_false_iff, decide_eq_false_iff_not, not_le,
          not_lt]
        by_contra hc
        push_neg at hc
        exact hn hc.1 (by simpa [Hentry.fussabdruck, Nat.add_comm] using hc.2) hr
      getrennt := hi.getrennt
      sauber := Sauber.speichern hi.sauber b _
      eintraege := hi.eintraege.setzen hblt
        (fun i hi' => Vol.hentry_speichern _ _ fun h => hi.bentry_inj hi' hblt h)
        (hi.eintraege.fussabdruck b hblt) (fun h0 => absurd rfl h0) fun _ _ _ h0 => absurd rfl h0
      digest := hi.digest_setzen hblt rfl
        (fun i hi' => Vol.hentry_speichern _ _ fun h => hi.bentry_inj hi' hblt h) rfl
      allocator_bekannt := hi.allocator_bekannt }

/-- `def_bentry` is no part of the session invariant. -/
theorem SitzungInv.mit_defBentry {w : Vol} (hi : SitzungInv D p₀ p w) (d : Option Nat) :
    SitzungInv D p₀ p { w with defBentry := d } := { hi with }

/-- A flag change keeps the digest and the payload place of every record. -/
theorem bentryFlags_kern (op : UInt8 → UInt8 → UInt8) (w : Vol) (i : Nat) (f : UInt8) (j : Nat) :
    GleicherKern (w.hentry j) ((bentryFlags op w i f).hentry j) := by
  rw [bentryFlags_hentry]
  split
  · rename_i hb
    have : w.hentry j = w.hentry i := by simp only [Vol.hentry, hb]
    rw [this]
    exact ⟨rfl, rfl, rfl, rfl⟩
  · exact ⟨rfl, rfl, rfl, rfl⟩

/-- **A flag change keeps the session invariant**: it changes the flags of one record, which no
    part of the invariant reads, and marks that record's chunk. -/
theorem SitzungInv.flags (hi : SitzungInv D p₀ p v) (op : UInt8 → UInt8 → UInt8) (i : Nat)
    (f : UInt8) (d : Option Nat) : SitzungInv D p₀ p { bentryFlags op v i f with defBentry := d } := by
  have hk := bentryFlags_kern op v i f
  refine SitzungInv.mit_defBentry ?_ d
  exact
    { hi with
      sauber := Sauber.speichern hi.sauber i _
      eintraege := hi.eintraege.kern fun j _ => hk j
      digest := fun j => (hi.digest j).trans (by
        show _ = if j < v.htableNbEntries then ((bentryFlags op v i f).hentry j).hash else 0
        rw [(hk j).1]) }

theorem SitzungInv.cleardefault (hi : SitzungInv D p₀ p v) :
    SitzungInv D p₀ p (actnCleardefault D v).2 := by
  unfold actnCleardefault
  split
  · exact hi
  · exact hi.flags _ _ _ none

/-- **Every action keeps the session invariant.** -/
theorem SitzungInv.nachAktion (hi : SitzungInv D p₀ p v) {e : Ereignis} {p' : Platte} {v' : Vol}
    {r : Int} {a : Ausgabe} (h : aktion D H p v e = some (p', v', r, a)) : SitzungInv D p₀ p' v' := by
  cases e <;> simp only [aktion, Option.some.injEq, Prod.mk.injEq] at h
  case addfile j u =>
    obtain ⟨hp, hv, hr, -⟩ := h
    exact hi.addfile (Prod.ext hr (Prod.ext hp hv))
  case rmfile j =>
    obtain ⟨rfl, hv, hr, -⟩ := h
    exact hi.rmfile (Prod.ext hr hv)
  case setdefault j =>
    obtain ⟨rfl, hv, hr, -⟩ := h
    rcases actnSetdefault_faelle D (Prod.ext hr hv) with ⟨-, rfl⟩ | ⟨-, b, -, -, -, rfl⟩
    · exact hi
    · exact hi.cleardefault.flags _ b _ (some b)
  case cleardefault =>
    obtain ⟨rfl, rfl, -⟩ := h
    exact hi.cleardefault
  case catfile | ls | info =>
    obtain ⟨rfl, rfl, -⟩ := h
    exact hi
  case mount | umount => cases h

end Sitzung

/-! ## 4. Mount -/

/-- **`mount_shfs` starts a session**: on a volume whose records keep `Eintraege`, the volume it
    mounts has the session invariant, no chunk marked modified. -/
theorem mount_sitzungInv {u : MountUmwelt} {p : Platte} {v : Vol} (hp : PlatteInv D p)
    (h : mountShfs D u p = some v) :
    SitzungInv D p p v ∧ ∀ k < v.htableLen, v.htableChunkCacheState k = false := by
  simp only [mountShfs, loadVolHtable, Option.bind_eq_bind, Option.bind_eq_some, pure,
    Option.some.injEq] at h
  obtain ⟨⟨cs, vs⟩, h1, ⟨epc, len⟩, h2, z, hz, al, hal, hv⟩ := h
  obtain ⟨rfl, rfl, hcs⟩ := loadVolCconf_some h1
  obtain ⟨rfl, rfl, hlen⟩ := loadVolHconf_some D h2
  have he : 0 < (geoVon D p).htableNbEntriesPerChunk := geoVon_epc_pos D hlen
  have hl := ladeHtable_inv D u _ _ _ p he _ (ladeInv_start D _ _ _ p _ rfl) hz
  rw [Nat.zero_add] at hl
  obtain ⟨ha1, ha2, ha3, ha4⟩ := loadVolAlist_some hal
  -- the chunks of the region are those of `p`, and so are the records of the slots
  have hk : ∀ k < (geoVon D p).htableLen, k * (geoVon D p).htableNbEntriesPerChunk <
      shfsHtableNbEntries p.hdrConfig := fun k hk => (lt_divRoundUp_iff he).mp hk
  have hrec : ∀ i < (geoVon D p).htableNbEntries, (z.cache (z.bt.bentry i).hentryHtchunk).hentry
      (z.bt.bentry i).hentryHtoffset = p.slot D i := fun i hi => by
    rw [hl.bentry i, if_pos (show i < shfsHtableNbEntries p.hdrConfig from hi)]
    show (z.cache (i / _)).hentry _ = _
    rw [hl.cache, if_pos (hk _ (geoVon_chunk_lt D hlen hi))]
    rfl
  have hgeo : v.geo = geoVon D p := by
    have hb : z.bt.bentry = (geoVon D p).bentry := funext fun i => by
      rw [hl.bentry i]
      rfl
    subst hv
    simp only [Vol.geo, geoVon] at hb ⊢
    rw [hl.nbBkts, hl.elPerBkt, hl.hlen, hb, ha1, ha2]
    rfl
  subst hv
  refine ⟨⟨hgeo, hcs, hlen, ⟨rfl, rfl⟩, fun _ _ => rfl, ha3, fun hb => ?_, fun k hk' _ => ?_,
    ?_, fun i => ?_, loadVolAlist_allocator hal⟩, fun k hk' => ?_⟩
  · dsimp only at hb ha4 ⊢
    by_contra hc
    push_neg at hc
    rcases le_total p.hdrConfig.htableRef p.hdrConfig.htableBakRef with h | h
    · exact ha4 hb _ le_rfl (by omega) ⟨h, by omega⟩
    · exact ha4 hb _ h (by omega) ⟨le_rfl, by omega⟩
  · show z.cache k = _
    rw [hl.cache, if_pos (hk k hk')]
  · rw [hgeo]
    exact (hp _ _ h1 hlen).kern fun i hi => by
      show GleicherKern _ ((z.cache (z.bt.bentry i).hentryHtchunk).hentry
        (z.bt.bentry i).hentryHtoffset)
      rw [hrec i hi]
      exact ⟨rfl, rfl, rfl, rfl⟩
  · show z.bt.h i = if i < shfsHtableNbEntries p.hdrConfig then
      ((z.cache (z.bt.bentry i).hentryHtchunk).hentry (z.bt.bentry i).hentryHtoffset).hash else 0
    rw [hl.h i]
    split
    · rw [hrec i ‹_›]; rfl
    · rfl
  · show z.state k = false
    rw [hl.state, if_pos (hk k hk')]

/-! ## 5. Unmount -/

section Umount

variable {D} {p₀ p p' : Platte} {v : Vol} {w : Nat → Bool}

/-- **What `umount_shfs` writes back**: after it, chunk `k` of the primary region is cache
    chunk `k`; chunk `k` of the backup region (if any) is too when it was marked modified, and is
    otherwise as it was. -/
theorem SitzungInv.umount (hi : SitzungInv D p₀ p v) (h : umountShfs w v p = some p') :
    p'.hdrCommon = p.hdrCommon ∧ p'.hdrConfig = p.hdrConfig ∧
    (∀ k < v.htableLen, p'.chunk (v.htableRef + k) = v.htableChunkCache k) ∧
    (∀ k < v.htableLen, v.htableBakRef ≠ 0 → p'.chunk (v.htableBakRef + k) =
      if v.htableChunkCacheState k then v.htableChunkCache k else p.chunk (v.htableBakRef + k)) := by
  have hget : v.htableBakRef ≠ 0 → ∀ k < v.htableLen, ∀ k' < v.htableLen,
      v.htableBakRef + k ≠ v.htableRef + k' := fun hb k hk k' hk' => by
    rcases hi.getrennt hb with h | h <;> omega
  obtain ⟨h1, h2, h3, h4⟩ := umountLoop_spec hget v.htableLen 0 p p' (Nat.zero_add _).le h
  refine ⟨h1, h2, fun k hk => ?_, fun k hk hb => ?_⟩
  · cases hs : v.htableChunkCacheState k
    · rw [h4 _ fun k' _ hk' hs' => ⟨fun e => ?_, fun hb e => hget hb k' (by omega) k (by omega)
        e.symm⟩]
      · exact (hi.sauber k hk hs).symm
      · obtain rfl := Nat.add_left_cancel e
        simp [hs] at hs'
    · exact (h3 k (Nat.zero_le _) (by omega) hs).1
  · cases hs : v.htableChunkCacheState k
    · exact h4 _ fun k' _ hk' hs' => ⟨fun e => hget hb k (by omega) k' (by omega) e, fun _ e => by
        obtain rfl := Nat.add_left_cancel e
        simp [hs] at hs'⟩
    · exact (h3 k (Nat.zero_le _) (by omega) hs).2 hb

/-- `umount_shfs` writes only the hash-table regions: a chunk that is not reserved keeps its
    bytes. -/
theorem SitzungInv.umount_rahmen (hi : SitzungInv D p₀ p v) (hu : umountShfs w v p = some p')
    {c : Nat} (hc : ¬ v.geo.reserviert c) : p'.chunk c = p.chunk c := by
  have hget : v.htableBakRef ≠ 0 → ∀ k < v.htableLen, ∀ k' < v.htableLen,
      v.htableBakRef + k ≠ v.htableRef + k' := fun hb k hk k' hk' => by
    rcases hi.getrennt hb with h | h <;> omega
  refine (umountLoop_spec hget v.htableLen 0 p p' (Nat.zero_add _).le hu).2.2.2 c
    fun k _ hk _ => ⟨fun e => hc ?_, fun hb e => hc ?_⟩
  · rw [e]
    exact v.geo.reserviert_region (show k < v.htableLen by omega)
  · rw [e]
    exact .inr (.inr ⟨hb, Nat.le_add_right _ _, by simp only [Vol.geo]; omega⟩)

/-- The members after `umount_shfs` have the geometry of the session. -/
theorem SitzungInv.geoVon_umount (hi : SitzungInv D p₀ p v) (h : umountShfs w v p = some p') :
    geoVon D p' = v.geo :=
  (geoVon_hdr D ((hi.umount h).1.trans hi.hdr.1) ((hi.umount h).2.1.trans hi.hdr.2)).trans
    hi.geo.symm

/-- After `umount_shfs` the record of slot `i` of the primary region is the cached one. -/
theorem SitzungInv.slot_umount (hi : SitzungInv D p₀ p v) (h : umountShfs w v p = some p')
    {i : Nat} (hi' : i < v.htableNbEntries) : p'.slot D i = v.hentry i := by
  have hg := hi.geoVon_umount h
  have hc := hi.chunk_lt hi'
  rw [hi.bentry_eq hi'] at hc
  have hr : p'.hdrConfig.htableRef = v.htableRef := congrArg Geo.htableRef hg
  have he : shfsHentriesPerChunk D (shfsChunksize p'.hdrCommon) = v.htableNbEntriesPerChunk :=
    congrArg Geo.htableNbEntriesPerChunk hg
  simp only [Platte.slot, slotHentry, Vol.hentry, hi.bentry_eq hi', hr, he, shfsHtableChunkNo]
  rw [(hi.umount h).2.2.1 _ hc]

/-- An unmodified cached record is the record of its slot on the members. -/
theorem SitzungInv.hentry_slot (hi : SitzungInv D p₀ p v) {i : Nat} (hi' : i < v.htableNbEntries)
    (hs : v.htableChunkCacheState (i / v.htableNbEntriesPerChunk) = false) :
    v.hentry i = p.slot D i := by
  have hg : v.geo = geoVon D p := hi.geo.trans (geoVon_hdr D hi.hdr.1 hi.hdr.2).symm
  have hc := hi.chunk_lt hi'
  rw [hi.bentry_eq hi'] at hc
  have hr : p.hdrConfig.htableRef = v.htableRef := (congrArg Geo.htableRef hg).symm
  have he : shfsHentriesPerChunk D (shfsChunksize p.hdrCommon) = v.htableNbEntriesPerChunk :=
    (congrArg Geo.htableNbEntriesPerChunk hg).symm
  simp only [Platte.slot, slotHentry, Vol.hentry, hi.bentry_eq hi', hr, he, shfsHtableChunkNo]
  rw [hi.sauber _ hc hs]

/-- After a mount every cached record is the record of its slot: the mount reads the whole table
    and marks no chunk modified. -/
theorem mount_hentry {u : MountUmwelt} (hp : PlatteInv D p) (h : mountShfs D u p = some v)
    {i : Nat} (hi' : i < v.htableNbEntries) : v.hentry i = p.slot D i := by
  obtain ⟨hi, hs⟩ := mount_sitzungInv D hp h
  have hc := hi.chunk_lt hi'
  rw [hi.bentry_eq hi'] at hc
  exact hi.hentry_slot hi' (hs _ hc)

/-- **`umount_shfs` ends a session with `PlatteInv`**: the records of the primary region are the
    cached ones. -/
theorem SitzungInv.platteInv (hi : SitzungInv D p₀ p v) (h : umountShfs w v p = some p') :
    PlatteInv D p' := by
  intro _ _ _ _
  rw [hi.geoVon_umount h]
  exact hi.eintraege.kern fun i hi' => by rw [hi.slot_umount h hi']; exact ⟨rfl, rfl, rfl, rfl⟩

end Umount

end Minicache.Shfs
