/-
  File:      Minicache/Shfs/Mitglieder.lean
  Subject:   The members of a volume: how `load_vol_cconf` maps the devices it was given onto
             the member table of the reference header, and the capacity it asks of each.

  `loadVolCconf` (Mount.lean) keeps of `load_vol_cconf` only the geometry it fixes; here the
  function is taken with its devices:

  * `geraeteSchleife`, `mitgliederSchleife`, `mitgliederZuordnen` -- the three nested loops of
    the member mapping, with the `continue` that goes on with the next device, and the two
    counts checked after them;
  * `mindestGroesse` -- `min_member_size`, computed in `uint64_t`;
  * `loadVolCconfGeraete` -- the whole of `load_vol_cconf` over the devices, which refines
    `loadVolCconf` (`loadVolCconfGeraete_geometrie`);
  * **`mitgliederZuordnen_gelingt`** -- the mapping completes exactly when the UUIDs of the
    devices and those of the header are two duplicate-free orderings of one set, and then it
    takes every device once, in the order of the header;
  * `stripeOrt`, `Passt` -- where the stripe mapper puts the bytes of a chunk (from the spec), and
    that they lie on the members; **`groessenpruefung_unvollstaendig`** -- volumes the capacity
    check accepts although their members are too small.

  NOT here: opening a device and detecting its label (`checkopen_disk`), whose failures end the
  process before the mapping. The devices here are those it opened, each with the common header
  of its label.
-/
import Mathlib.Data.List.Nodup
import Mathlib.Data.List.GetD
import Minicache.Shfs.Mount

namespace Minicache.Shfs

/-! ## 1. The member mapping -/

/-- The loop over the detected devices, from device `m` on, for the header's member UUID `hu`.
    The members so far are pairs `(device, uuid)`. A device with UUID `hu` becomes the next
    member, unless a member already has that UUID (`dief`: "A member is specified for multiple
    times"); `continue` goes on with the next device either way. -/
def geraeteSchleife (hu : Nat) : List Nat → Nat → List (Nat × Nat) → Option (List (Nat × Nat))
  | [], _, ms => some ms
  | u :: us, m, ms =>
    if hu = u then
      if ms.any (·.2 == hu) then none
      else geraeteSchleife hu us (m + 1) (ms ++ [(m, u)])
    else geraeteSchleife hu us (m + 1) ms

/-- The loop over the header's member table, `for (i = 0; i < member_count; i++)`. -/
def mitgliederSchleife (det : List Nat) : List Nat → List (Nat × Nat) → Option (List (Nat × Nat))
  | [], ms => some ms
  | hu :: hs, ms => (geraeteSchleife hu det 0 ms).bind (mitgliederSchleife det hs)

/-- The member mapping of `load_vol_cconf` for the header's member UUIDs `hdr` and the UUIDs
    `det` of the detected devices: the loops, then `nb_members == count` and
    `nb_members == member_count` (else `dief`); the members' devices, by index, in order. -/
def mitgliederZuordnen (hdr det : List Nat) : Option (List Nat) :=
  (mitgliederSchleife det hdr []).bind fun ms =>
    if ms.length ≠ det.length then none
    else if ms.length ≠ hdr.length then none
    else some (ms.map (·.1))

/-- `hdr_common->member[i].uuid` for `i < member_count`. -/
def mitgliedTabelle (h : HdrCommon) : List Nat := (List.range h.memberCount).map (h.member.getD · 0)

/-- The device loop in closed form: it adds the first device with UUID `hu`, and dies when `hu`
    is a member's UUID already or when a second device carries it. -/
theorem geraeteSchleife_eq (hu : Nat) : ∀ (us : List Nat) (m : Nat) (ms : List (Nat × Nat)),
    geraeteSchleife hu us m ms =
      if hu ∉ us then some ms
      else if ms.any (·.2 == hu) = true ∨ 2 ≤ us.count hu then none
      else some (ms ++ [(m + us.indexOf hu, hu)])
  | [], _, _ => by simp [geraeteSchleife]
  | u :: us, m, ms => by
    by_cases h : hu = u
    · subst h
      simp only [geraeteSchleife, if_true, List.mem_cons_self, not_true_eq_false, if_false,
        List.count_cons_self, List.indexOf_cons_self, Nat.add_zero]
      by_cases hany : ms.any (·.2 == hu) = true
      · simp [hany]
      · rw [if_neg hany, geraeteSchleife_eq hu us (m + 1)]
        by_cases hin : hu ∈ us
        · have := List.count_pos_iff.mpr hin
          simp [hin]
        · simp [hin, hany, List.count_eq_zero_of_not_mem hin]
    · rw [geraeteSchleife, if_neg h, geraeteSchleife_eq hu us (m + 1)]
      simp only [List.mem_cons, h, false_or, List.count_cons_of_ne h,
        List.indexOf_cons_ne us (Ne.symm h), Nat.add_right_comm m 1, Nat.succ_eq_add_one,
        Nat.add_assoc]

/-- What one completed device loop did: nothing, or add the first device with a UUID no member
    had. -/
theorem geraeteSchleife_some {hu : Nat} {us : List Nat} {m : Nat} {ms ms' : List (Nat × Nat)}
    (h : geraeteSchleife hu us m ms = some ms') :
    (hu ∉ us ∧ ms' = ms) ∨
      (hu ∈ us ∧ hu ∉ ms.map Prod.snd ∧ ms' = ms ++ [(m + us.indexOf hu, hu)]) := by
  rw [geraeteSchleife_eq] at h
  by_cases hin : hu ∈ us
  · rw [if_neg (not_not.mpr hin)] at h
    split at h
    · cases h
    · rename_i hc
      refine .inr ⟨hin, fun hm => hc (.inl ?_), (Option.some.inj h).symm⟩
      obtain ⟨x, hx, rfl⟩ := List.mem_map.mp hm
      exact List.any_eq_true.mpr ⟨x, hx, beq_self_eq_true _⟩
  · rw [if_pos hin] at h
    exact .inl ⟨hin, (Option.some.inj h).symm⟩

section Zuordnung

variable {det : List Nat}

/-- What a completed member loop added: one member per header UUID it found among the devices,
    in header order, each the first device with that UUID, and no UUID twice. -/
theorem mitgliederSchleife_some : ∀ {hs : List Nat} {ms ms' : List (Nat × Nat)},
    mitgliederSchleife det hs ms = some ms' → (ms.map Prod.snd).Nodup →
      ∃ zs, ms' = ms ++ zs ∧ (zs.map Prod.snd).Sublist hs ∧ (ms'.map Prod.snd).Nodup ∧
        ∀ z ∈ zs, z.2 ∈ det ∧ z.1 = det.indexOf z.2
  | [], ms, ms', h, hn => by
    cases h
    exact ⟨[], by simp, by simp, hn, by simp⟩
  | hu :: hs, ms, ms', h, hn => by
    simp only [mitgliederSchleife, Option.bind_eq_some] at h
    obtain ⟨ms₁, h₁, h₂⟩ := h
    rcases geraeteSchleife_some h₁ with ⟨-, rfl⟩ | ⟨hin, hnot, rfl⟩
    · obtain ⟨zs, rfl, hsub, hn', hz⟩ := mitgliederSchleife_some h₂ hn
      exact ⟨zs, rfl, hsub.cons hu, hn', hz⟩
    · have hn₁ : ((ms ++ [(0 + det.indexOf hu, hu)]).map Prod.snd).Nodup := by
        simpa [List.nodup_append, hn] using hnot
      obtain ⟨zs, rfl, hsub, hn', hz⟩ := mitgliederSchleife_some h₂ hn₁
      refine ⟨(0 + det.indexOf hu, hu) :: zs, by simp, by simpa using hsub, hn', ?_⟩
      intro z hz'
      rcases List.mem_cons.mp hz' with rfl | hz'
      · exact ⟨hin, Nat.zero_add _⟩
      · exact hz z hz'

/-- **The member loop completes** on duplicate-free devices for duplicate-free header UUIDs they
    all carry, none of them a member already. -/
theorem mitgliederSchleife_gelingt (hd : det.Nodup) : ∀ {hs : List Nat} {ms : List (Nat × Nat)},
    hs ⊆ det → hs.Nodup → (∀ hu ∈ hs, hu ∉ ms.map Prod.snd) →
      mitgliederSchleife det hs ms = some (ms ++ hs.map fun hu => (det.indexOf hu, hu))
  | [], ms, _, _, _ => by simp [mitgliederSchleife]
  | hu :: hs, ms, hsub, hn, hfrei => by
    have hin : hu ∈ det := hsub (List.mem_cons_self hu hs)
    have hany : ¬ (ms.any (·.2 == hu) = true) := fun ha => by
      obtain ⟨x, hx, hx'⟩ := List.any_eq_true.mp ha
      exact hfrei hu (List.mem_cons_self hu hs) (List.mem_map.mpr ⟨x, hx, (beq_iff_eq.mp hx')⟩)
    have hc : ¬ 2 ≤ det.count hu := by
      have := List.nodup_iff_count_le_one.mp hd hu; omega
    rw [List.nodup_cons] at hn
    simp only [mitgliederSchleife, geraeteSchleife_eq, if_neg (not_not.mpr hin),
      if_neg (not_or.mpr ⟨hany, hc⟩), Option.some_bind, Nat.zero_add]
    rw [mitgliederSchleife_gelingt hd (fun x hx => hsub (List.mem_cons_of_mem hu hx)) hn.2
      fun hu' hu'' hm => ?_]
    · simp
    · simp only [List.map_append, List.map_cons, List.map_nil, List.mem_append, List.mem_singleton] at hm
      rcases hm with hm | rfl
      · exact hfrei hu' (List.mem_cons_of_mem hu hu'') hm
      · exact hn.1 hu''

/-- A completed mapping: both UUID lists without duplicates and orderings of one another, and
    member `k` the device of the header's `k`-th UUID. -/
theorem mitgliederZuordnen_some {hdr : List Nat} {ms : List Nat}
    (h : mitgliederZuordnen hdr det = some ms) :
    det.Nodup ∧ hdr.Nodup ∧ hdr.Perm det ∧ ms = hdr.map det.indexOf := by
  simp only [mitgliederZuordnen, Option.bind_eq_some] at h
  obtain ⟨ms₀, h₀, h⟩ := h
  split_ifs at h with h1 h2
  cases h
  obtain ⟨zs, hms, hsub, hn, hz⟩ := mitgliederSchleife_some h₀ List.nodup_nil
  rw [List.nil_append] at hms
  subst ms₀
  have hzs : zs.map Prod.snd = hdr := hsub.eq_of_length (by rw [List.length_map]; omega)
  rw [hzs] at hn
  have hsub' : hdr ⊆ det := fun x hx => by
    rw [← hzs] at hx
    obtain ⟨z, hz', rfl⟩ := List.mem_map.mp hx
    exact (hz z hz').1
  have hp : hdr.Perm det :=
    (List.subperm_of_subset hn hsub').perm_of_length_le (by rw [← hzs, List.length_map]; omega)
  refine ⟨hp.nodup_iff.mp hn, hn, hp, ?_⟩
  rw [← hzs, List.map_map]
  exact List.map_congr_left fun z hz' => (hz z hz').2

/-- On duplicate-free orderings of one set, the mapping completes. -/
theorem mitgliederZuordnen_eq {hdr : List Nat} (hd : det.Nodup) (hh : hdr.Nodup)
    (hp : hdr.Perm det) : mitgliederZuordnen hdr det = some (hdr.map det.indexOf) := by
  have hl : mitgliederSchleife det hdr [] = some ([] ++ hdr.map fun hu => (det.indexOf hu, hu)) :=
    mitgliederSchleife_gelingt hd (fun x hx => hp.subset hx) hh fun _ _ => List.not_mem_nil _
  simp only [mitgliederZuordnen, hl, Option.some_bind, List.nil_append, List.length_map,
    hp.length_eq, ne_eq, not_true_eq_false, if_false, List.map_map]
  rfl

/-- **The member mapping of `load_vol_cconf`.** It completes without dying exactly when the
    devices' UUIDs have no duplicate, the header's have none, and each list is an ordering of
    the other; member `k` is then the device whose UUID is the header's `k`-th, and the members
    are the devices, each once. -/
theorem mitgliederZuordnen_gelingt (hdr det : List Nat) :
    ((mitgliederZuordnen hdr det).isSome ↔ det.Nodup ∧ hdr.Nodup ∧ hdr.Perm det) ∧
    ∀ ms, mitgliederZuordnen hdr det = some ms →
      ms.length = hdr.length ∧ (∀ k < hdr.length, det.getD (ms.getD k 0) 0 = hdr.getD k 0) ∧
      ms.Perm (List.range det.length) := by
  refine ⟨⟨fun h => ?_, fun ⟨hd, hh, hp⟩ => by rw [mitgliederZuordnen_eq hd hh hp]; rfl⟩,
    fun ms h => ?_⟩
  · obtain ⟨ms, h⟩ := Option.isSome_iff_exists.mp h
    obtain ⟨hd, hh, hp, -⟩ := mitgliederZuordnen_some h
    exact ⟨hd, hh, hp⟩
  · obtain ⟨hd, hh, hp, rfl⟩ := mitgliederZuordnen_some h
    have hin : ∀ x ∈ hdr, x ∈ det := fun x hx => hp.subset hx
    refine ⟨List.length_map _ _, fun k hk => ?_, ?_⟩
    · have hx := hin _ (List.getElem_mem hk)
      have hm : (hdr.map det.indexOf).getD k 0 = det.indexOf hdr[k] := by
        rw [List.getD_eq_getElem _ _ (by rw [List.length_map]; exact hk), List.getElem_map]
      rw [hm, List.getD_eq_getElem _ _ (List.indexOf_lt_length.mpr hx), List.getElem_indexOf,
        List.getD_eq_getElem _ _ hk]
    · have hn : (hdr.map det.indexOf).Nodup :=
        hh.map_on fun x hx y hy e => (List.indexOf_inj (hin x hx) (hin y hy)).mp e
      refine (List.subperm_of_subset hn fun i hi => ?_).perm_of_length_le (by
        rw [List.length_range, List.length_map, hp.length_eq])
      obtain ⟨x, hx, rfl⟩ := List.mem_map.mp hi
      exact List.mem_range.mpr (List.indexOf_lt_length.mpr (hin x hx))

example : mitgliederZuordnen [1, 2, 3] [3, 1, 2] = some [1, 2, 0] := by decide

end Zuordnung

/-! ## 2. The capacity check -/

/-- `min_member_size`, in `uint64_t`: `(volsize + 1) * stripesize` for COMBINED, and
    `((volsize + 1) / nb_members) * stripesize` for every other mode. -/
def mindestGroesse (mode : Stripemode) (volsize stripesize nbMembers : Nat) : Nat :=
  if mode = .combined then (volsize + 1) % 2 ^ 64 * stripesize % 2 ^ 64
  else (volsize + 1) % 2 ^ 64 / nbMembers * stripesize % 2 ^ 64

/-- A block device `load_vol_cconf` opened and found an SHFS label on: the common header of the
    label, whose `memberUuid` is the device's own, and the device's size in bytes. -/
structure Geraet where
  hdr : HdrCommon
  groesse : Nat
  deriving DecidableEq, Repr

/-- `load_vol_cconf` over the devices `devs` (at most `maxGeraete`, `MAX_NB_TRY_BLKDEVS`):
    `(chunksize, volsize)` and the members' devices in header order, or `none` where it dies.
    The reference header is that of the first device. -/
def loadVolCconfGeraete (maxGeraete : Nat) (devs : List Geraet) : Option (Nat × Nat × List Nat) :=
  if devs.length > maxGeraete then none else
  match devs with
  | [] => none
  | d₀ :: _ =>
    let h := d₀.hdr
    if h.memberStripemode = .unbekannt then none else
    (mitgliederZuordnen (mitgliedTabelle h) (devs.map (·.hdr.memberUuid))).bind fun ms =>
      if h.memberStripesize < 4096 ∨ powerOf2 h.memberStripesize = false then none
      else if ms.all fun m =>
          mindestGroesse h.memberStripemode h.volSize h.memberStripesize ms.length ≤
            (devs.getD m d₀).groesse then
        some (shfsChunksize h, h.volSize, ms)
      else none

/-! ## 3. The stripe mapper -/

/-- Modelled from the spec (the stripe mapper, which is not in src/): the (member, device offset)
    pairs that hold byte `b` of logical chunk `c` on `nb` members. COMBINED mirrors the chunk onto
    each member at `c * stripesize`; INDEPENDENT puts stripe `c * nb + b / stripesize` on member
    `(c * nb + b / stripesize) % nb`. -/
def stripeOrt (mode : Stripemode) (stripesize nb c b : Nat) : List (Nat × Nat) :=
  if mode = .combined then (List.range nb).map fun m => (m, c * stripesize + b)
  else
    let s := c * nb + b / stripesize
    [(s % nb, s / nb * stripesize + b % stripesize)]

/-- The volume fits on members of the sizes `groessen` (in member order): every byte of every
    chunk `c ≤ volsize` lies inside each member the stripe mapper puts it on. -/
def Passt (mode : Stripemode) (volsize stripesize : Nat) (groessen : List Nat) : Prop :=
  ∀ c ≤ volsize, ∀ b < stripesize * (if mode = .combined then 1 else groessen.length),
    ∀ o ∈ stripeOrt mode stripesize groessen.length c b, o.2 < groessen.getD o.1 0

instance (mode : Stripemode) (volsize stripesize : Nat) (groessen : List Nat) :
    Decidable (Passt mode volsize stripesize groessen) := by
  unfold Passt; infer_instance

/-- Chunk `c` of an INDEPENDENT volume occupies stripe `c` of each member: its byte `b` is byte
    `b % stripesize` of that stripe on member `b / stripesize`. -/
theorem stripeOrt_unabhaengig {mode : Stripemode} {stripesize nb c b : Nat}
    (hm : mode ≠ .combined) (hb : b < stripesize * nb) :
    stripeOrt mode stripesize nb c b = [(b / stripesize, c * stripesize + b % stripesize)] := by
  have hq : b / stripesize < nb := Nat.div_lt_of_lt_mul hb
  have hdiv : (c * nb + b / stripesize) / nb = c := by
    rw [Nat.mul_comm, Nat.mul_add_div (Nat.lt_of_le_of_lt (Nat.zero_le _) hq), Nat.div_eq_of_lt hq,
      Nat.add_zero]
  simp only [stripeOrt, if_neg hm, Nat.mul_add_mod_of_lt hq, hdiv]

/-- What a placement of the stripe mapper says: a member below `nb`, and an offset inside the
    `c`-th stripe of that member. -/
theorem stripeOrt_mem {mode : Stripemode} {stripesize nb c b : Nat} {o : Nat × Nat}
    (hs : 0 < stripesize) (hb : b < stripesize * (if mode = .combined then 1 else nb))
    (ho : o ∈ stripeOrt mode stripesize nb c b) :
    o.1 < nb ∧ ∃ r < stripesize, o.2 = c * stripesize + r := by
  by_cases hc : mode = .combined
  · simp only [stripeOrt, hc, if_true, Nat.mul_one, List.mem_map, List.mem_range] at ho hb
    obtain ⟨m, hm, rfl⟩ := ho
    exact ⟨hm, b, hb, rfl⟩
  · rw [if_neg hc] at hb
    rw [stripeOrt_unabhaengig hc hb, List.mem_singleton] at ho
    subst ho
    exact ⟨Nat.div_lt_of_lt_mul hb, _, Nat.mod_lt _ hs, rfl⟩

/-- Every byte of stripe `c` of every member holds a byte of chunk `c`. -/
theorem stripeOrt_trifft (mode : Stripemode) {stripesize nb m r : Nat} (c : Nat) (hm : m < nb)
    (hr : r < stripesize) : ∃ b < stripesize * (if mode = .combined then 1 else nb),
      (m, c * stripesize + r) ∈ stripeOrt mode stripesize nb c b := by
  by_cases hc : mode = .combined
  · refine ⟨r, by rw [if_pos hc, Nat.mul_one]; exact hr, ?_⟩
    simp only [stripeOrt, if_pos hc, List.mem_map, List.mem_range]
    exact ⟨m, hm, rfl⟩
  · have hb : stripesize * m + r < stripesize * nb := by
      have := Nat.mul_le_mul_left stripesize (Nat.succ_le_of_lt hm)
      rw [Nat.mul_succ] at this; omega
    refine ⟨stripesize * m + r, by rw [if_neg hc]; exact hb, ?_⟩
    rw [stripeOrt_unabhaengig hc hb, Nat.mul_add_div (by omega), Nat.div_eq_of_lt hr, Nat.add_zero,
      Nat.mul_add_mod, Nat.mod_eq_of_lt hr]
    exact List.mem_singleton_self _

/-- **What fitting means**: the volume fits exactly when each member holds `(volsize + 1)`
    stripes, in either mode. -/
theorem passt_iff {mode : Stripemode} {volsize stripesize : Nat} {groessen : List Nat}
    (hs : 0 < stripesize) :
    Passt mode volsize stripesize groessen ↔ ∀ g ∈ groessen, (volsize + 1) * stripesize ≤ g := by
  constructor
  · -- the last byte of the last chunk on each member
    intro hP g hg
    obtain ⟨m, hm, rfl⟩ := List.getElem_of_mem hg
    obtain ⟨b, hb, ho⟩ := stripeOrt_trifft mode volsize hm (Nat.sub_lt hs Nat.one_pos)
    have := hP volsize le_rfl b hb _ ho
    rw [List.getD_eq_getElem _ _ hm] at this
    rw [Nat.succ_mul]; omega
  · rintro hall c hc b hb o ho
    obtain ⟨hm, r, hr, h2⟩ := stripeOrt_mem hs hb ho
    have hc' := Nat.mul_le_mul_right stripesize hc
    rw [h2, List.getD_eq_getElem _ _ hm]
    exact Nat.lt_of_lt_of_le (by rw [Nat.succ_mul]; omega) (hall _ (List.getElem_mem hm))

/-! ## 4. What the check accepts -/

/-- What an accepted device list satisfies: every check of `load_vol_cconf` passed on the header
    of its first device, the reference. -/
theorem loadVolCconfGeraete_some {maxGeraete : Nat} {devs : List Geraet} {cs vs : Nat}
    {ms : List Nat} (h : loadVolCconfGeraete maxGeraete devs = some (cs, vs, ms)) :
    ∃ d₀ rest, devs = d₀ :: rest ∧ d₀.hdr.memberStripemode ≠ .unbekannt ∧
      mitgliederZuordnen (mitgliedTabelle d₀.hdr) (devs.map (·.hdr.memberUuid)) = some ms ∧
      ¬(d₀.hdr.memberStripesize < 4096 ∨ powerOf2 d₀.hdr.memberStripesize = false) ∧
      (∀ m ∈ ms, mindestGroesse d₀.hdr.memberStripemode d₀.hdr.volSize d₀.hdr.memberStripesize
        ms.length ≤ (devs.getD m d₀).groesse) ∧
      cs = shfsChunksize d₀.hdr ∧ vs = d₀.hdr.volSize := by
  rcases devs with _ | ⟨d₀, rest⟩
  · simp [loadVolCconfGeraete] at h
  · unfold loadVolCconfGeraete at h
    by_cases h1 : (d₀ :: rest).length > maxGeraete
    · rw [if_pos h1] at h; cases h
    by_cases h2 : d₀.hdr.memberStripemode = .unbekannt
    · simp only [if_neg h1, if_pos h2] at h; cases h
    simp only [if_neg h1, if_neg h2, Option.bind_eq_some] at h
    obtain ⟨ms', hz, h⟩ := h
    split_ifs at h with h3 h4
    cases h
    exact ⟨d₀, rest, rfl, h2, hz, h3, fun m hm => of_decide_eq_true (List.all_eq_true.mp h4 m hm),
      rfl, rfl⟩

/-- **`loadVolCconfGeraete` refines `loadVolCconf`**: a device list it accepts yields the
    geometry `loadVolCconf` computes from the reference header. -/
theorem loadVolCconfGeraete_geometrie {maxGeraete : Nat} {devs : List Geraet} {cs vs : Nat}
    {ms : List Nat} (h : loadVolCconfGeraete maxGeraete devs = some (cs, vs, ms)) :
    ∃ d₀ rest, devs = d₀ :: rest ∧ loadVolCconf d₀.hdr = some (cs, vs) := by
  obtain ⟨d₀, rest, rfl, hm, hz, hs, -, rfl, rfl⟩ := loadVolCconfGeraete_some h
  obtain ⟨-, -, hp, -⟩ := mitgliederZuordnen_some hz
  have hc : d₀.hdr.memberCount ≠ 0 := by
    have := hp.length_eq
    simp only [mitgliedTabelle, List.length_map, List.length_range, List.length_cons] at this
    omega
  exact ⟨d₀, rest, rfl, by simp only [loadVolCconf, if_neg hm, if_neg hc, if_neg hs]⟩

/-- Where `min_member_size` loses nothing, the capacity check is sound: an accepted volume fits
    its members, in their header order. -/
theorem loadVolCconfGeraete_passt {maxGeraete : Nat} {d₀ : Geraet} {rest : List Geraet}
    {cs vs : Nat} {ms : List Nat}
    (h : loadVolCconfGeraete maxGeraete (d₀ :: rest) = some (cs, vs, ms))
    (hv : mindestGroesse d₀.hdr.memberStripemode vs d₀.hdr.memberStripesize ms.length =
      (vs + 1) * d₀.hdr.memberStripesize) :
    Passt d₀.hdr.memberStripemode vs d₀.hdr.memberStripesize
      (ms.map fun m => ((d₀ :: rest).getD m d₀).groesse) := by
  obtain ⟨d, _, he, -, -, hs, hg, -, rfl⟩ := loadVolCconfGeraete_some h
  cases he
  rw [passt_iff (by omega)]
  intro g hg'
  obtain ⟨m, hm, rfl⟩ := List.mem_map.mp hg'
  exact hv ▸ hg m hm

/-- `min_member_size` of a COMBINED volume is `(volsize + 1) * stripesize` wherever that product
    stays below 2^64. -/
theorem mindestGroesse_combined {volsize stripesize nb : Nat}
    (hv : (volsize + 1) * stripesize < 2 ^ 64) (hs : 0 < stripesize) :
    mindestGroesse .combined volsize stripesize nb = (volsize + 1) * stripesize := by
  have h1 : volsize + 1 < 2 ^ 64 :=
    Nat.lt_of_le_of_lt (Nat.le_mul_of_pos_right _ hs) hv
  rw [mindestGroesse, if_pos rfl, Nat.mod_eq_of_lt h1, Nat.mod_eq_of_lt hv]

/-- Two 8 KiB members of an INDEPENDENT volume of `vol_size` 3 and stripesize 4096. -/
def geraeteUnabhaengig : List Geraet :=
  [1, 2].map fun u => ⟨⟨7, "v", 4096, .independent, 3, 2, [1, 2], u⟩, 8192⟩

/-- One 4 KiB member of a COMBINED volume of `vol_size` 2^52 and stripesize 4096. -/
def geraetKombiniert : List Geraet :=
  [⟨⟨7, "v", 4096, .combined, 2 ^ 52, 1, [1], 1⟩, 4096⟩]

/-- **The capacity check is not sound.** It accepts two volumes whose members are too small for
    the stripe mapper: the INDEPENDENT one of two 8 KiB members, because the check divides
    `vol_size + 1` by `nb_members` although chunk `c` takes stripe `c` of each member, and the
    COMBINED one of a 4 KiB member, because `(vol_size + 1) * stripesize` wraps to 4096 in
    `uint64_t`. -/
theorem groessenpruefung_unvollstaendig (maxGeraete : Nat) (hmax : 2 ≤ maxGeraete) :
    loadVolCconfGeraete maxGeraete geraeteUnabhaengig = some (8192, 3, [0, 1]) ∧
      ¬Passt .independent 3 4096 [8192, 8192] ∧
    loadVolCconfGeraete maxGeraete geraetKombiniert = some (4096, 2 ^ 52, [0]) ∧
      ¬Passt .combined (2 ^ 52) 4096 [4096] := by
  refine ⟨?_, fun hP => ?_, ?_, fun hP => ?_⟩
  · unfold loadVolCconfGeraete
    rw [if_neg (by simp only [geraeteUnabhaengig, List.length_map, List.length_cons, List.length_nil]; omega)]
    decide
  · exact absurd (hP 3 le_rfl 8191 (by decide) (1, 16383) (by decide)) (by decide)
  · unfold loadVolCconfGeraete
    rw [if_neg (by simp only [geraetKombiniert, List.length_cons, List.length_nil]; omega)]
    decide
  · exact absurd (hP 1 (by decide) 0 (by decide) (0, 4096) (by decide)) (by decide)

/-- With room for the two devices. -/
theorem groessenpruefung_unvollstaendig_zwei :
    2 ≤ 2 ∧ loadVolCconfGeraete 2 geraeteUnabhaengig = some (8192, 3, [0, 1]) ∧
      ¬Passt .independent 3 4096 [8192, 8192] ∧
    loadVolCconfGeraete 2 geraetKombiniert = some (4096, 2 ^ 52, [0]) ∧
      ¬Passt .combined (2 ^ 52) 4096 [4096] :=
  ⟨le_rfl, groessenpruefung_unvollstaendig 2 le_rfl⟩

end Minicache.Shfs
