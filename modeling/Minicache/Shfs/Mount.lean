/-
  File:      Minicache/Shfs/Mount.lean
  Subject:   `mount_shfs` and `umount_shfs`.

  `mountShfs` is the composition of the four loaders of the source, each a definition of its
  own; a `dief`/`die` is `none` (the process ends, the members are untouched):

  * `loadVolCconf` -- the geometry from the reference member's common header (the device probing
    and member mapping of `load_vol_cconf` only decide whether the mount dies);
  * `loadVolHconf` -- chunk 1 and the derived sizes, `htable_len == 0` refused;
  * `loadVolHtable` -- an empty bucket table, then its loop `ladeHtable` over every slot
    `i < htable_nb_entries`, with its lazy load of chunk `SHFS_HTABLE_CHUNK_NO(i)` on
    `cur_chk != cur_htchk || !chk_buf` (`liestChunk`); **`ladeHtable_deckt`**: it reads each
    chunk of the region once and gives every slot its own place in them;
  * `loadVolAlist` -- the allocator: label, hash-table regions (fatal on failure), then the
    containers of the non-empty entries (failures ignored).

  `umountShfs` writes every chunk whose `CCS_MODIFIED` bit is set to the primary region, then
  to the backup region when there is one; a failed write is fatal (`none`).
-/
import Minicache.Shfs.Vol

namespace Minicache.Shfs

variable (D : ShfsDefs)

/-! ## 1. Configuration -/

/-- `POWER_OF_2(x)`. -/
def powerOf2 (x : Nat) : Bool := x != 0 && (x &&& (x - 1)) == 0

/-- The geometry `load_vol_cconf` fixes, `(chunksize, volsize)`, from the common header of the
    reference member. Its member checks (`nb_members == count == member_count`, `count ≥ 1`) let
    only a header with `member_count ≥ 1` through. -/
def loadVolCconf (h : HdrCommon) : Option (Nat × Nat) :=
  if h.memberStripemode = .unbekannt then none
  else if h.memberCount = 0 then none
  else if h.memberStripesize < 4096 ∨ powerOf2 h.memberStripesize = false then none
  else some (shfsChunksize h, h.volSize)

/-- What the environment answers `mount_shfs`: whether reading chunk `k` succeeds, and what
    `htable_chunk_cache` (calloc) and `htable_chunk_cache_state` (malloc) hold before the loop. -/
structure MountUmwelt where
  lies : Nat → Bool
  cache0 : Nat → Chunk
  state0 : Nat → Bool

/-- `load_vol_hconf`: read chunk 1 and derive the table sizes, `(entries_per_chunk,
    htable_len)`. -/
def loadVolHconf (u : MountUmwelt) (chunksize volsize : Nat) (p : Platte) : Option (Nat × Nat) := do
  let _ ← syncReadChunk volsize p 1 (u.lies 1)
  let len := shfsHtableSizeChunks D p.hdrConfig chunksize
  if len = 0 then none else some (shfsHentriesPerChunk D chunksize, len)

/-! ## 2. load_vol_htable -/

/-- The locals and globals the loop of `load_vol_htable` changes. -/
structure Lade where
  curChk : Nat
  chkBuf : Option Chunk
  cache : Nat → Chunk
  state : Nat → Bool
  bt : Btable
  defBentry : Option Nat

/-- The buffer of slot `i`'s chunk, read if the loop is not already on that chunk. -/
def ladeChunk (u : MountUmwelt) (volsize ref epc : Nat) (p : Platte) (i : Nat) (z : Lade) :
    Option (Chunk × Lade) :=
  let cur := shfsHtableChunkNo i epc
  match z.chkBuf with
  | some buf => if z.curChk = cur then some (buf, z) else lies cur
  | none => lies cur
where
  lies (cur : Nat) : Option (Chunk × Lade) :=
    (syncReadChunk volsize p (cur + ref) (u.lies (cur + ref))).map fun buf =>
      (buf, { z with chkBuf := some buf, curChk := cur,
                     cache := Function.update z.cache cur buf,
                     state := Function.update z.state cur false })

/-- The lazy-load condition of the loop of `load_vol_htable` before slot `i`,
    `cur_chk != cur_htchk || !chk_buf`. -/
def liestChunk (epc i : Nat) (z : Lade) : Bool :=
  z.curChk != shfsHtableChunkNo i epc || z.chkBuf.isNone

/-- One iteration of the loop of `load_vol_htable`, for slot `i`. -/
def ladeSlot (u : MountUmwelt) (volsize ref epc : Nat) (p : Platte) (i : Nat) (z : Lade) :
    Option Lade :=
  (ladeChunk u volsize ref epc p i z).map fun (buf, z) =>
    let off := shfsHtableEntryOffset D i epc
    let e := buf.hentry off
    let bt := shfsBtableFeed z.bt i e.hash
    { z with
      bt := { bt with bentry := Function.update bt.bentry i ⟨shfsHtableChunkNo i epc, off⟩ }
      defBentry := if e.isDefault D then some i else z.defBentry }

/-- The loop of `load_vol_htable` over slots `i, i + 1, …, i + n - 1`. -/
def ladeHtable (u : MountUmwelt) (volsize ref epc : Nat) (p : Platte) : Nat → Nat → Lade → Option Lade
  | 0, _, z => some z
  | n + 1, i, z => (ladeSlot D u volsize ref epc p i z).bind (ladeHtable u volsize ref epc p n (i + 1))

/-- `load_vol_htable`: an empty bucket table from `shfs_alloc_btable`, no chunk buffer, then the
    loop over every slot `i < htable_nb_entries`. -/
def loadVolHtable (u : MountUmwelt) (volsize epc : Nat) (p : Platte) : Option Lade :=
  let c := p.hdrConfig
  ladeHtable D u volsize c.htableRef epc p (shfsHtableNbEntries c) 0
    ⟨0, none, u.cache0, u.state0,
     shfsAllocBtable c.htableBucketCount c.htableEntriesPerBucket c.hlen, none⟩

/-! ## 3. load_vol_alist and mount_shfs -/

/-- `load_vol_alist`: the label chunks, the hash-table regions, then each non-empty entry's
    container; only the last registrations may fail silently. -/
def loadVolAlist (v : Vol) : Option Alist := do
  let al ← shfsAllocAlist v.volsize v.allocator
  let al ← shfsAlistRegister al 0 2
  let al ← shfsAlistRegister al v.htableRef v.htableLen
  let al ← if v.htableBakRef ≠ 0 then shfsAlistRegister al v.htableBakRef v.htableLen else pure al
  pure <| v.bt.belegte.foldl (fun al i =>
    (shfsAlistRegister al (v.hentry i).chunk
      (divRoundUp ((v.hentry i).offset + (v.hentry i).len) v.chunksize)).getD al) al

/-- `mount_shfs`: `shfs_vol` as the four loaders leave it, or `none` if one of them dies. -/
def mountShfs (u : MountUmwelt) (p : Platte) : Option Vol := do
  let (cs, volsize) ← loadVolCconf p.hdrCommon
  let (epc, len) ← loadVolHconf D u cs volsize p
  let c := p.hdrConfig
  let z ← loadVolHtable D u volsize epc p
  let v : Vol :=
    { chunksize := cs, volsize := volsize, htableRef := c.htableRef,
      htableBakRef := c.htableBakRef, htableNbBuckets := c.htableBucketCount,
      htableNbEntriesPerBucket := c.htableEntriesPerBucket,
      htableNbEntries := shfsHtableNbEntries c, htableNbEntriesPerChunk := epc,
      htableLen := len, hlen := c.hlen, allocator := c.allocator, bt := z.bt,
      al := ⟨volsize, c.allocator, fun _ => false⟩,
      htableChunkCache := z.cache, htableChunkCacheState := z.state, defBentry := z.defBentry }
  let al ← loadVolAlist v
  pure { v with al := al }

theorem loadVolCconf_some {h : HdrCommon} {cs vs : Nat} (hc : loadVolCconf h = some (cs, vs)) :
    cs = shfsChunksize h ∧ vs = h.volSize ∧ 0 < cs := by
  unfold loadVolCconf at hc
  split_ifs at hc with h1 h2 h3
  cases hc
  refine ⟨rfl, rfl, Nat.mul_pos (by omega) ?_⟩
  split <;> omega

theorem loadVolHconf_some {u : MountUmwelt} {cs vs epc len : Nat} {p : Platte}
    (h : loadVolHconf D u cs vs p = some (epc, len)) :
    epc = shfsHentriesPerChunk D cs ∧ len = shfsHtableSizeChunks D p.hdrConfig cs ∧ 0 < len := by
  simp only [loadVolHconf, Option.bind_eq_bind, Option.bind_eq_some] at h
  obtain ⟨-, -, h⟩ := h
  split at h
  · cases h
  · cases h; exact ⟨rfl, rfl, by omega⟩

/-- Registrations whose results are ignored keep the volume size, the policy and every chunk
    registered before. -/
theorem foldl_register_getD (s n : Nat → Nat) :
    ∀ (l : List Nat) (al : Alist),
      (l.foldl (fun al i => (shfsAlistRegister al (s i) (n i)).getD al) al).volsize = al.volsize ∧
      (l.foldl (fun al i => (shfsAlistRegister al (s i) (n i)).getD al) al).allocator =
        al.allocator ∧
      ∀ c, al.belegt c = true →
        (l.foldl (fun al i => (shfsAlistRegister al (s i) (n i)).getD al) al).belegt c = true
  | [], _ => ⟨rfl, rfl, fun _ h => h⟩
  | i :: l, al => by
    obtain ⟨h1, h2, h3⟩ := register_getD al (s i) (n i)
    obtain ⟨h1', h2', h3'⟩ := foldl_register_getD s n l _
    exact ⟨h1'.trans h1, h2'.trans h2, fun c h => h3' c (h3 c h)⟩

/-- `load_vol_alist` dies on an allocator `shfs_alloc_alist` does not know. -/
theorem loadVolAlist_allocator {v : Vol} {al : Alist} (h : loadVolAlist v = some al) :
    v.allocator ≠ .unbekannt := by
  intro hu
  simp [loadVolAlist, shfsAllocAlist, hu] at h

/-- **What `load_vol_alist` registers**: the label chunks and the hash-table regions, the backup
    one clear of the primary one, whatever the containers of the entries did. -/
theorem loadVolAlist_some {v : Vol} {al : Alist} (h : loadVolAlist v = some al) :
    al.volsize = v.volsize ∧ al.allocator = v.allocator ∧
    (∀ c, (c < 2 ∨ (v.htableRef ≤ c ∧ c < v.htableRef + v.htableLen) ∨
      (v.htableBakRef ≠ 0 ∧ v.htableBakRef ≤ c ∧ c < v.htableBakRef + v.htableLen)) →
        al.belegt c = true) ∧
    (v.htableBakRef ≠ 0 → ∀ c, v.htableBakRef ≤ c → c < v.htableBakRef + v.htableLen →
      ¬ (v.htableRef ≤ c ∧ c < v.htableRef + v.htableLen)) := by
  simp only [loadVolAlist, Option.bind_eq_bind, Option.bind_eq_some, pure] at h
  obtain ⟨a₀, h0, a₁, h1, a₂, h2, h3⟩ := h
  have e0 : a₀ = ⟨v.volsize, v.allocator, fun _ => false⟩ := by
    unfold shfsAllocAlist at h0
    split at h0
    · cases h0
    · exact (Option.some.inj h0).symm
  subst e0
  obtain ⟨-, rfl⟩ := shfsAlistRegister_eq h1
  obtain ⟨-, rfl⟩ := shfsAlistRegister_eq h2
  split at h3
  · rename_i hb
    simp only [Option.bind_eq_some, Option.some.injEq] at h3
    obtain ⟨a₃, h4, rfl⟩ := h3
    obtain ⟨hf, rfl⟩ := shfsAlistRegister_eq h4
    obtain ⟨k1, k2, k3⟩ := foldl_register_getD _ _ v.bt.belegte _
    refine ⟨k1, k2, fun c hc => k3 c ?_, fun _ c h1 h2 hr => ?_⟩
    · rcases hc with hc | hc | hc <;> simp [inBereich, hc]
    · have := Alist.frei_iff.mp hf c h1 h2
      simp [inBereich, hr] at this
  · rename_i hb
    simp only [Option.bind_eq_some, Option.some.injEq] at h3
    obtain ⟨a₃, rfl, rfl⟩ := h3
    obtain ⟨k1, k2, k3⟩ := foldl_register_getD _ _ v.bt.belegte _
    refine ⟨k1, k2, fun c hc => k3 c ?_, fun h => absurd h hb⟩
    rcases hc with hc | hc | hc
    · simp [inBereich, hc]
    · simp [inBereich, hc]
    · exact absurd hc.1 hb

/-! ## 4. umount_shfs -/

/-- The write-back loop of `umount_shfs` over cache chunks `i, …, i + n - 1`; `schreib k` is
    whether writing chunk `k` succeeds. -/
def umountLoop (v : Vol) (schreib : Nat → Bool) : Nat → Nat → Platte → Option Platte
  | 0, _, p => some p
  | n + 1, i, p =>
    if v.htableChunkCacheState i then do
      let p ← syncWriteChunk v.volsize p (v.htableRef + i) (v.htableChunkCache i)
        (schreib (v.htableRef + i))
      let p ← if v.htableBakRef ≠ 0 then
          syncWriteChunk v.volsize p (v.htableBakRef + i) (v.htableChunkCache i)
            (schreib (v.htableBakRef + i))
        else pure p
      umountLoop v schreib n (i + 1) p
    else umountLoop v schreib n (i + 1) p

/-- `umount_shfs`: the members after the write-back, or `none` when a write fails. -/
def umountShfs (schreib : Nat → Bool) (v : Vol) (p : Platte) : Option Platte :=
  umountLoop v schreib v.htableLen 0 p

section Rueckschreiben

variable {v : Vol} {w : Nat → Bool}

/-- One pass of the write-back loop over a modified chunk `i`: chunk `i` of the cache goes to the
    primary region and, if there is one, to the backup region; then the rest of the loop. -/
theorem umountLoop_schritt {n i : Nat} {p p' : Platte} (hs : v.htableChunkCacheState i = true)
    (h : umountLoop v w (n + 1) i p = some p') :
    ∃ p₂, umountLoop v w n (i + 1) p₂ = some p' ∧ p₂.hdrCommon = p.hdrCommon ∧
      p₂.hdrConfig = p.hdrConfig ∧ ∀ c, p₂.chunk c =
        if c = v.htableRef + i ∨ (v.htableBakRef ≠ 0 ∧ c = v.htableBakRef + i)
        then v.htableChunkCache i else p.chunk c := by
  simp only [umountLoop, hs, if_true, Option.bind_eq_bind, Option.bind_eq_some] at h
  obtain ⟨p₁, h1, h⟩ := h
  obtain ⟨-, rfl⟩ := syncWriteChunk_some h1
  split at h
  · rename_i hb
    obtain ⟨p₂, h2, h3⟩ := Option.bind_eq_some.mp h
    obtain ⟨-, rfl⟩ := syncWriteChunk_some h2
    refine ⟨_, h3, rfl, rfl, fun c => ?_⟩
    simp only [Function.update_apply, hb, not_false_eq_true, true_and]
    by_cases h₁ : c = v.htableBakRef + i <;> by_cases h₂ : c = v.htableRef + i <;> simp [h₁, h₂, hb]
  · rename_i hb
    refine ⟨_, h, rfl, rfl, fun c => ?_⟩
    simp only [Function.update_apply, hb, false_and, or_false]

/-- **What the write-back loop writes**, from cache chunk `i` on: each modified chunk `k` to chunk
    `k` of the primary region and, if there is one, of the backup region; every other chunk of the
    members stays. The two regions must not overlap. -/
theorem umountLoop_spec (hget : v.htableBakRef ≠ 0 → ∀ k < v.htableLen, ∀ k' < v.htableLen,
      v.htableBakRef + k ≠ v.htableRef + k') :
    ∀ n i (p p' : Platte), i + n ≤ v.htableLen → umountLoop v w n i p = some p' →
      p'.hdrCommon = p.hdrCommon ∧ p'.hdrConfig = p.hdrConfig ∧
      (∀ k, i ≤ k → k < i + n → v.htableChunkCacheState k = true →
        p'.chunk (v.htableRef + k) = v.htableChunkCache k ∧
        (v.htableBakRef ≠ 0 → p'.chunk (v.htableBakRef + k) = v.htableChunkCache k)) ∧
      ∀ c, (∀ k, i ≤ k → k < i + n → v.htableChunkCacheState k = true →
        c ≠ v.htableRef + k ∧ (v.htableBakRef ≠ 0 → c ≠ v.htableBakRef + k)) →
        p'.chunk c = p.chunk c
  | 0, _, p, p', _, h => by
    cases h
    exact ⟨rfl, rfl, fun k h1 h2 => absurd h2 (by omega), fun _ _ => rfl⟩
  | n + 1, i, p, p', hn, h => by
    by_cases hs : v.htableChunkCacheState i = true
    · obtain ⟨p₂, h3, hc₁, hc₂, hch⟩ := umountLoop_schritt hs h
      obtain ⟨i1, i2, i3, i4⟩ := umountLoop_spec hget n (i + 1) p₂ p' (by omega) h3
      -- the later passes write neither chunk of pass `i`
      have hspaeter : ∀ c, c = v.htableRef + i ∨ (v.htableBakRef ≠ 0 ∧ c = v.htableBakRef + i) →
          p'.chunk c = v.htableChunkCache i := by
        intro c hc
        rw [i4 c fun k h1 h2 _ => ⟨?_, fun hb => ?_⟩, hch, if_pos hc]
        · rcases hc with rfl | ⟨hb, rfl⟩
          · omega
          · exact hget hb i (by omega) k (by omega)
        · rcases hc with rfl | ⟨-, rfl⟩
          · exact fun e => hget hb k (by omega) i (by omega) e.symm
          · omega
      refine ⟨i1.trans hc₁, i2.trans hc₂, fun k h1 h2 hk => ?_, fun c hc => ?_⟩
      · rcases Nat.eq_or_lt_of_le h1 with rfl | h1
        · exact ⟨hspaeter _ (.inl rfl), fun hb => hspaeter _ (.inr ⟨hb, rfl⟩)⟩
        · exact i3 k h1 (by omega) hk
      · obtain ⟨hr, hb⟩ := hc i le_rfl (by omega) hs
        rw [i4 c fun k h1 h2 hk => hc k (by omega) (by omega) hk, hch,
          if_neg fun h => h.elim hr fun ⟨h₁, h₂⟩ => hb h₁ h₂]
    · simp only [umountLoop, hs, Bool.false_eq_true, if_false] at h
      obtain ⟨i1, i2, i3, i4⟩ := umountLoop_spec hget n (i + 1) p p' (by omega) h
      refine ⟨i1, i2, fun k h1 h2 hk => ?_, fun c hc => i4 c fun k h1 h2 hk => hc k (by omega)
        (by omega) hk⟩
      rcases Nat.eq_or_lt_of_le h1 with rfl | h1
      · exact absurd hk hs
      · exact i3 k h1 (by omega) hk

end Rueckschreiben

/-! ## 5. What the loop of load_vol_htable leaves -/

section Laden

variable (u : MountUmwelt) (volsize ref epc : Nat) (p : Platte)

/-- The record of slot `i` in the primary hash-table region of the members. -/
def slotHentry (i : Nat) : Hentry :=
  (p.chunk (ref + shfsHtableChunkNo i epc)).hentry (shfsHtableEntryOffset D i epc)

/-- The last slot below `m` whose record carries DEFAULT, else `d₀`. -/
def letzterDefault (d₀ : Option Nat) : Nat → Option Nat
  | 0 => d₀
  | m + 1 => if (slotHentry D ref epc p m).isDefault D then some m else letzterDefault d₀ m

/-- **What the loop has done after slots `0, …, m - 1`**, started from `z₀`: the chunks it has
    entered are read and unmodified, every slot it has passed is fed with its record's digest and
    given its record's place. -/
structure LadeInv (z₀ z : Lade) (m : Nat) : Prop where
  buf : 0 < m → z.chkBuf = some (p.chunk (ref + (m - 1) / epc)) ∧ z.curChk = (m - 1) / epc
  leer : m = 0 → z.chkBuf = none
  cache : ∀ k, z.cache k = if k * epc < m then p.chunk (ref + k) else z₀.cache k
  state : ∀ k, z.state k = if k * epc < m then false else z₀.state k
  h : ∀ i, z.bt.h i = if i < m then (slotHentry D ref epc p i).hash else z₀.bt.h i
  bentry : ∀ i, z.bt.bentry i =
    if i < m then ⟨i / epc, shfsHtableEntryOffset D i epc⟩ else z₀.bt.bentry i
  nbBkts : z.bt.nbBkts = z₀.bt.nbBkts
  elPerBkt : z.bt.elPerBkt = z₀.bt.elPerBkt
  hlen : z.bt.hlen = z₀.bt.hlen
  defBentry : z.defBentry = letzterDefault D ref epc p z₀.defBentry m
  lesbar : ∀ k, k * epc < m → ref + k ≤ volsize

theorem ladeInv_start (z₀ : Lade) (h : z₀.chkBuf = none) : LadeInv D volsize ref epc p z₀ z₀ 0 where
  buf h := absurd h (Nat.lt_irrefl 0)
  leer _ := h
  cache k := by simp
  state k := by simp
  h i := by simp
  bentry i := by simp
  nbBkts := rfl
  elPerBkt := rfl
  hlen := rfl
  defBentry := rfl
  lesbar k h := absurd h (Nat.not_lt_zero _)

/-- Slot `m` lies in the chunk the loop is on exactly when that chunk was entered before. -/
theorem chunk_betreten {epc m : Nat} (he : 0 < epc) (hm : 0 < m) :
    (m - 1) / epc = m / epc ↔ (m / epc) * epc < m := by
  constructor
  · intro h
    have h1 := Nat.div_mul_le_self (m - 1) epc
    rw [h] at h1
    omega
  · intro h
    apply Nat.le_antisymm (Nat.div_le_div_right (by omega))
    exact (Nat.le_div_iff_mul_le he).mpr (by omega)

theorem mul_lt_succ_iff {epc m k : Nat} (he : 0 < epc) :
    k * epc < m + 1 ↔ k * epc < m ∨ k = m / epc := by
  constructor
  · intro h
    rcases Nat.lt_or_ge (k * epc) m with h' | h'
    · exact .inl h'
    · exact .inr (by rw [show m = k * epc by omega, Nat.mul_div_cancel _ he])
  · rintro (h | rfl)
    · omega
    · exact Nat.lt_succ_of_le (Nat.div_mul_le_self m epc)

/-- The loop state after pass `m` has its buffer, whichever way it got it. -/
def NachChunk (z₀ z z₁ : Lade) (m : Nat) (buf : Chunk) : Prop :=
  buf = p.chunk (ref + m / epc) ∧ z₁.chkBuf = some buf ∧ z₁.curChk = m / epc ∧
    (∀ k, z₁.cache k = if k * epc < m + 1 then p.chunk (ref + k) else z₀.cache k) ∧
    (∀ k, z₁.state k = if k * epc < m + 1 then false else z₀.state k) ∧
    z₁.bt = z.bt ∧ z₁.defBentry = z.defBentry ∧ (∀ k, k * epc < m + 1 → ref + k ≤ volsize)

/-- A pass that reads its chunk. -/
theorem ladeChunk_lies_spec {z₀ z z₁ : Lade} {m : Nat} {buf : Chunk} (he : 0 < epc)
    (hi : LadeInv D volsize ref epc p z₀ z m)
    (hl : ladeChunk.lies u volsize ref p z (m / epc) = some (buf, z₁)) :
    NachChunk volsize ref epc p z₀ z z₁ m buf := by
  simp only [ladeChunk.lies, Option.map_eq_some', Prod.mk.injEq] at hl
  obtain ⟨b, hr, rfl, rfl⟩ := hl
  obtain ⟨hv, rfl⟩ := syncReadChunk_some hr
  have hin := Nat.lt_succ_of_le (Nat.div_mul_le_self m epc)
  refine ⟨by rw [Nat.add_comm], rfl, rfl, fun k => ?_, fun k => ?_, rfl, rfl, fun k hk => ?_⟩
  · by_cases hk : k = m / epc
    · subst hk; simp [Nat.add_comm, hin]
    · simp only [Function.update_noteq hk, hi.cache, mul_lt_succ_iff he, hk, or_false]
  · by_cases hk : k = m / epc
    · subst hk; simp [hin]
    · simp only [Function.update_noteq hk, hi.state, mul_lt_succ_iff he, hk, or_false]
  · rcases (mul_lt_succ_iff he).mp hk with hk | rfl
    · exact hi.lesbar k hk
    · omega

/-- **The buffer of pass `m`** is chunk `m / epc` of the region, and after it the chunks the loop
    has entered are those of slots `0, …, m`. -/
theorem ladeChunk_spec {z₀ z z₁ : Lade} {m : Nat} {buf : Chunk} (he : 0 < epc)
    (hi : LadeInv D volsize ref epc p z₀ z m) (hc : ladeChunk u volsize ref epc p m z = some (buf, z₁)) :
    NachChunk volsize ref epc p z₀ z z₁ m buf := by
  unfold ladeChunk at hc
  cases hb : z.chkBuf with
  | none => rw [hb] at hc; exact ladeChunk_lies_spec D u volsize ref epc p he hi hc
  | some b =>
    rw [hb] at hc
    simp only [shfsHtableChunkNo] at hc
    split at hc
    · rename_i hcur
      cases hc
      have hm : 0 < m := Nat.pos_of_ne_zero fun h0 => by simp [hi.leer h0] at hb
      obtain ⟨hbuf, hcc⟩ := hi.buf hm
      have hdiv : (m - 1) / epc = m / epc := hcc.symm.trans hcur
      have hin := (chunk_betreten he hm).mp hdiv
      have hmk : ∀ k, k * epc < m + 1 ↔ k * epc < m := fun k =>
        (mul_lt_succ_iff he).trans ⟨fun h => h.elim id fun h => h ▸ hin, .inl⟩
      refine ⟨?_, hb, hcur, fun k => ?_, fun k => ?_, rfl, rfl, fun k hk => hi.lesbar k ((hmk k).mp hk)⟩
      · rw [hb, hdiv] at hbuf; exact (Option.some.inj hbuf)
      · simp only [hi.cache k, hmk]
      · simp only [hi.state k, hmk]
    · exact ladeChunk_lies_spec D u volsize ref epc p he hi hc

/-- **One pass of the loop keeps `LadeInv`.** -/
theorem ladeSlot_inv {z₀ z z' : Lade} {m : Nat} (he : 0 < epc)
    (hi : LadeInv D volsize ref epc p z₀ z m) (hs : ladeSlot D u volsize ref epc p m z = some z') :
    LadeInv D volsize ref epc p z₀ z' (m + 1) := by
  simp only [ladeSlot, Option.map_eq_some'] at hs
  obtain ⟨⟨buf, z₁⟩, hc, rfl⟩ := hs
  obtain ⟨rfl, hb, hcur, hcache, hstate, hbt, hdef, hles⟩ := ladeChunk_spec D u volsize ref epc p he hi hc
  have hrec : (p.chunk (ref + m / epc)).hentry (shfsHtableEntryOffset D m epc) = slotHentry D ref epc p m := rfl
  refine ⟨fun _ => ⟨hb, hcur⟩, fun h => absurd h (Nat.succ_ne_zero m), hcache, hstate,
    fun i => ?_, fun i => ?_, ?_, ?_, ?_, ?_, hles⟩
  · simp only [shfsBtableFeed_h, hbt, hrec]
    by_cases hi' : i = m
    · subst hi'; simp
    · rw [Function.update_noteq hi', hi.h i]
      simp only [Nat.lt_succ_iff_lt_or_eq, hi', or_false]
  · simp only [shfsBtableFeed_bentry, hbt]
    by_cases hi' : i = m
    · subst hi'; simp [shfsHtableChunkNo]
    · rw [Function.update_noteq hi', hi.bentry i]
      simp only [Nat.lt_succ_iff_lt_or_eq, hi', or_false]
  · simp [hbt, hi.nbBkts, shfsBtableFeed]
  · simp [hbt, hi.elPerBkt, shfsBtableFeed]
  · simp [hbt, hi.hlen, shfsBtableFeed]
  · simp only [hdef, hrec, letzterDefault, hi.defBentry]

/-- **The whole loop keeps `LadeInv`.** -/
theorem ladeHtable_inv {z₀ : Lade} (he : 0 < epc) :
    ∀ (n : Nat) {m : Nat} {z z' : Lade}, LadeInv D volsize ref epc p z₀ z m →
      ladeHtable D u volsize ref epc p n m z = some z' → LadeInv D volsize ref epc p z₀ z' (m + n)
  | 0, _, _, _, hi, hs => by cases hs; exact hi
  | n + 1, m, z, z', hi, hs => by
    simp only [ladeHtable, Option.bind_eq_some] at hs
    obtain ⟨z₁, h₁, h₂⟩ := hs
    have := ladeHtable_inv he n (ladeSlot_inv D u volsize ref epc p he hi h₁) h₂
    rwa [Nat.add_right_comm, Nat.add_assoc] at this

/-- `ladeChunk` reads chunk `SHFS_HTABLE_CHUNK_NO(i)` exactly under the lazy-load condition, and
    otherwise hands on the buffer it holds. -/
theorem ladeChunk_eq (i : Nat) (z : Lade) :
    ladeChunk u volsize ref epc p i z =
      if liestChunk epc i z then ladeChunk.lies u volsize ref p z (shfsHtableChunkNo i epc)
      else z.chkBuf.map (·, z) := by
  unfold ladeChunk liestChunk
  cases z.chkBuf with
  | none => simp
  | some b => by_cases h : z.curChk = shfsHtableChunkNo i epc <;> simp [h]

/-- The loop of `m + n` passes is that of `m` passes followed by that of `n`. -/
theorem ladeHtable_add : ∀ (m n i : Nat) (z : Lade),
    ladeHtable D u volsize ref epc p (m + n) i z =
      (ladeHtable D u volsize ref epc p m i z).bind (ladeHtable D u volsize ref epc p n (i + m))
  | 0, n, i, z => by simp [ladeHtable]
  | m + 1, n, i, z => by
    rw [Nat.add_right_comm, ladeHtable, ladeHtable, Option.bind_assoc]
    simp only [ladeHtable_add m n (i + 1), Nat.add_right_comm i 1 m, Nat.add_assoc]

/-- **Pass `m` reads exactly when `m` is a multiple of `epc`**, i.e. on entering a new chunk. -/
theorem liestChunk_iff {z₀ z : Lade} {m : Nat} (he : 0 < epc)
    (hi : LadeInv D volsize ref epc p z₀ z m) : liestChunk epc m z = true ↔ m % epc = 0 := by
  rcases Nat.eq_zero_or_pos m with rfl | hm
  · simp [liestChunk, hi.leer rfl]
  · obtain ⟨hb, hc⟩ := hi.buf hm
    have hbetr := chunk_betreten he hm
    have hdm := Nat.mod_add_div' m epc
    have hle := Nat.div_mul_le_self m epc
    simp only [liestChunk, hb, hc, shfsHtableChunkNo, Option.isNone_some, Bool.or_false,
      bne_iff_ne, ne_eq]
    omega

/-- **The loop completes** when every chunk it enters can be read. -/
theorem ladeHtable_gelingt {z₀ : Lade} (he : 0 < epc) : ∀ (n : Nat) {m : Nat} {z : Lade},
    LadeInv D volsize ref epc p z₀ z m →
    (∀ k, m ≤ k * epc → k * epc < m + n → ref + k ≤ volsize ∧ u.lies (ref + k) = true) →
    ∃ z', ladeHtable D u volsize ref epc p n m z = some z'
  | 0, _, z, _, _ => ⟨z, rfl⟩
  | n + 1, m, z, hi, hl => by
    have hc : ∃ r, ladeChunk u volsize ref epc p m z = some r := by
      rw [ladeChunk_eq]
      split
      · rename_i hr
        have hm := (liestChunk_iff D volsize ref epc p he hi).mp hr
        have hk : m / epc * epc = m := by have := Nat.mod_add_div' m epc; omega
        obtain ⟨hv, hok⟩ := hl (m / epc) (by omega) (by omega)
        simp [ladeChunk.lies, syncReadChunk, shfsHtableChunkNo, Nat.add_comm, hv, hok]
      · rename_i hr
        cases hb : z.chkBuf with
        | none => simp [liestChunk, hb] at hr
        | some b => exact ⟨(b, z), rfl⟩
    obtain ⟨r, hc⟩ := hc
    obtain ⟨z₁, hs⟩ : ∃ z₁, ladeSlot D u volsize ref epc p m z = some z₁ :=
      ⟨_, by rw [ladeSlot, hc]; rfl⟩
    obtain ⟨z', hz'⟩ := ladeHtable_gelingt he n (ladeSlot_inv D u volsize ref epc p he hi hs)
      fun k h1 h2 => hl k (by omega) (by omega)
    exact ⟨z', by rw [ladeHtable, hs, Option.some_bind, hz']⟩

/-- Slot `i`'s record lies within the first `epc` records of its chunk. -/
theorem shfsHtableEntryOffset_add_le {i epc : Nat} (he : 0 < epc) :
    shfsHtableEntryOffset D i epc + D.hentrySize ≤ epc * D.hentrySize := by
  rw [shfsHtableEntryOffset, ← Nat.succ_mul]
  exact Nat.mul_le_mul_right _ (Nat.mod_lt i he)

/-- Two slots of one chunk have disjoint records. -/
theorem shfsHtableEntryOffset_getrennt {i j epc : Nat} (hij : i ≠ j) (hq : i / epc = j / epc) :
    shfsHtableEntryOffset D i epc + D.hentrySize ≤ shfsHtableEntryOffset D j epc ∨
      shfsHtableEntryOffset D j epc + D.hentrySize ≤ shfsHtableEntryOffset D i epc := by
  have hr : i % epc ≠ j % epc := fun h => hij (by
    rw [← Nat.mod_add_div i epc, ← Nat.mod_add_div j epc, h, hq])
  simp only [shfsHtableEntryOffset, ← Nat.succ_mul]
  rcases Nat.lt_or_gt_of_ne hr with h | h
  · exact .inl (Nat.mul_le_mul_right _ h)
  · exact .inr (Nat.mul_le_mul_right _ h)

/-- **`load_vol_htable` covers the whole region.** From the start of the loop (`chk_buf = NULL`),
    over `nb` slots at `epc ≥ 1` records per chunk: the loop completes when the
    `htable_len = ceil(nb / epc)` chunks of the region can be read; pass `i` reads chunk `k`
    exactly when `i = k * epc`, so each chunk `k < htable_len` is read once, into
    `htable_chunk_cache[k]` with state 0; and slot `i` is given the place
    `(i / epc, (i % epc) * sizeof(struct shfs_hentry))`, inside buffer `i / epc < htable_len`
    and apart from every other slot's. -/
theorem ladeHtable_deckt {nb : Nat} (he : 1 ≤ epc) (z₀ : Lade) (h0 : z₀.chkBuf = none) :
    ((∀ k < divRoundUp nb epc, ref + k ≤ volsize ∧ u.lies (ref + k) = true) →
      ∃ z', ladeHtable D u volsize ref epc p nb 0 z₀ = some z') ∧
    ∀ z', ladeHtable D u volsize ref epc p nb 0 z₀ = some z' →
      (∀ i < nb, ∃ z, ladeHtable D u volsize ref epc p i 0 z₀ = some z ∧
        ∀ k, (liestChunk epc i z = true ∧ shfsHtableChunkNo i epc = k) ↔ i = k * epc) ∧
      (∀ k < divRoundUp nb epc,
        k * epc < nb ∧ z'.cache k = p.chunk (ref + k) ∧ z'.state k = false) ∧
      (∀ i < nb, z'.bt.bentry i = ⟨i / epc, i % epc * D.hentrySize⟩ ∧
        i / epc < divRoundUp nb epc ∧ i % epc * D.hentrySize + D.hentrySize ≤ epc * D.hentrySize) ∧
      (∀ i < nb, ∀ j < nb, i ≠ j →
        (z'.bt.bentry i).hentryHtchunk ≠ (z'.bt.bentry j).hentryHtchunk ∨
        (z'.bt.bentry i).hentryHtoffset + D.hentrySize ≤ (z'.bt.bentry j).hentryHtoffset ∨
        (z'.bt.bentry j).hentryHtoffset + D.hentrySize ≤ (z'.bt.bentry i).hentryHtoffset) := by
  have hs := ladeInv_start D volsize ref epc p z₀ h0
  refine ⟨fun hl => ladeHtable_gelingt D u volsize ref epc p he nb hs
    fun k _ hk => hl k ((lt_divRoundUp_iff he).mpr (by omega)), fun z' hz' => ?_⟩
  have hi := ladeHtable_inv D u volsize ref epc p he nb hs hz'
  rw [Nat.zero_add] at hi
  have hb : ∀ i < nb, z'.bt.bentry i = ⟨i / epc, i % epc * D.hentrySize⟩ := fun i h => by
    rw [hi.bentry i, if_pos h]; rfl
  refine ⟨fun i h => ?_, fun k hk => ?_, fun i h => ⟨hb i h, ?_, ?_⟩, fun i h j h' hij => ?_⟩
  · obtain ⟨z, hz, -⟩ := Option.bind_eq_some.mp
      ((ladeHtable_add D u volsize ref epc p i (nb - i) 0 z₀).symm.trans
        (by rw [Nat.add_sub_cancel' (Nat.le_of_lt h)]; exact hz'))
    have hiz := ladeHtable_inv D u volsize ref epc p he i hs hz
    rw [Nat.zero_add] at hiz
    refine ⟨z, hz, fun k => ?_⟩
    rw [liestChunk_iff D volsize ref epc p he hiz, shfsHtableChunkNo]
    have := Nat.mod_add_div' i epc
    constructor
    · rintro ⟨h1, rfl⟩; omega
    · rintro rfl; exact ⟨Nat.mul_mod_left k epc, Nat.mul_div_cancel k he⟩
  · have hk' := (lt_divRoundUp_iff he).mp hk
    exact ⟨hk', by rw [hi.cache, if_pos hk'], by rw [hi.state, if_pos hk']⟩
  · exact (lt_divRoundUp_iff he).mpr (Nat.lt_of_le_of_lt (Nat.div_mul_le_self i epc) h)
  · exact shfsHtableEntryOffset_add_le D he
  · rw [hb i h, hb j h']
    by_cases hq : i / epc = j / epc
    · exact .inr (shfsHtableEntryOffset_getrennt D hij hq)
    · exact .inl hq

end Laden

/-- Four slots of 256-byte records, sixteen to a chunk, in a region at chunk 2 of a volume of
    eight chunks that reads without error: the loop completes. -/
theorem ladeHtable_deckt_vier :
    1 ≤ 16 ∧ (⟨0, none, fun _ => Chunk.null, fun _ => false, shfsAllocBtable 2 2 1, none⟩ : Lade).chkBuf = none ∧
    ∃ z', ladeHtable ⟨256, 32, 64, 1, 2, by decide, by decide⟩
      ⟨fun _ => true, fun _ => Chunk.null, fun _ => false⟩ 7 2 16
      ⟨⟨1, "vol", 4096, .combined, 7, 1, [1], 1⟩, ⟨2, 0, 2, 2, 1, .first⟩, fun _ => Chunk.null⟩ 4 0
      ⟨0, none, fun _ => Chunk.null, fun _ => false, shfsAllocBtable 2 2 1, none⟩ = some z' :=
  ⟨by decide, rfl, (ladeHtable_deckt _ _ 7 2 16 _ (by decide) _ rfl).1 fun k hk =>
    ⟨by simp only [divRoundUp] at hk; omega, rfl⟩⟩

end Minicache.Shfs
