/-
  File:      Minicache/Dlist/Verknuepft.lean
  Subject:   `dlist_is_linked` on a list that dlist.h built.

  The macro answers from the element's own link field and the two ends of the head; it says
  nothing of the sequence. It is exact when every element outside the list has `NULL` links,
  which `dlist_init_el` establishes and `dlist_unlink` restores:

  * `dlistAppend_rahmen`, `dlistPrepend_rahmen`, `dlistUnlink_rahmen`, `DlistOp.rahmen` -- an
    operation changes the link field of no element outside the list but its own;
  * `dlistUnlink_link_self` -- `dlist_unlink` leaves both links of its element `NULL`;
  * `Ruht el s xs` -- `el`, when outside the list `xs` of `s`, has `NULL` links; kept by every
    operation (`ruht_schritt`) and so by a run (`ruht_ausfuehren`), and set up by every
    operation on `el`;
  * `dlistIsLinked_iff` -- on a list of `xs` with `Ruht el`, `dlist_is_linked` is `el ∈ xs`;
  * **`dlistIsLinked_genau`** -- the whole run from `dlist_init_head`.

  NOT here: lists of several heads through one link field, which the macro's own comment
  excludes.
-/
import Minicache.Dlist.Verfeinerung

namespace Minicache

/-- The element an operation takes. -/
def DlistOp.element : DlistOp → Nat
  | .append el | .prepend el | .unlink el | .relinkTail el | .relinkHead el => el

/-- `el`, when outside the list `xs` that `s` spells, has `NULL` links. -/
def Ruht (el : Nat) (s : Dlist) (xs : List Nat) : Prop := el ∉ xs → s.link el = ⟨none, none⟩

/-! ## 1. What an operation leaves of the elements outside the list -/

section Rahmen

variable {s s' : Dlist} {xs : List Nat} {el a : Nat}

theorem dlistAppend_rahmen (h : Darstellt s xs) (hs : dlistAppend el s = some s') (ha : a ∉ xs)
    (hae : a ≠ el) : s'.link a = s.link a := by
  obtain ⟨-, -, hn, hp⟩ := dlistAppend_felder hs
  have hl : s.last ≠ some a := fun e => ha (List.mem_of_getLast?_eq_some (h.last ▸ e))
  exact DlistEl.ext (by rw [hn a]; simp [hae, hl]) (by rw [hp a, if_neg hae])

theorem dlistPrepend_rahmen (h : Darstellt s xs) (hs : dlistPrepend el s = some s') (ha : a ∉ xs)
    (hae : a ≠ el) : s'.link a = s.link a := by
  rw [dlistPrepend_eq el h.leer] at hs
  obtain ⟨t, ht, rfl⟩ := Option.map_eq_some'.mp hs
  have hm := dlistAppend_rahmen h.spiegel ht (by simpa using ha) hae
  exact DlistEl.ext (by rw [Dlist.spiegel_next, hm, Dlist.spiegel_prev])
    (by rw [Dlist.spiegel_prev, hm, Dlist.spiegel_next])

theorem dlistUnlink_rahmen (h : Darstellt s xs) (hel : el ∈ xs) (hs : dlistUnlink el s = some s')
    (ha : a ∉ xs) : s'.link a = s.link a := by
  have hae : a ≠ el := fun e => ha (e ▸ hel)
  have hp : (s.link el).prev ≠ some a := fun e => ha (h.wohlgeformt.prevMem el hel a e)
  have hn : (s.link el).next ≠ some a := fun e => ha (h.wohlgeformt.nextMem el hel a e)
  obtain ⟨-, hnext⟩ := dlistUnlink_felder hs
  obtain ⟨-, hprev⟩ := dlistUnlink_felder (s := s.spiegel) (by rw [dlistUnlink_spiegel, hs]; rfl)
  exact DlistEl.ext (by rw [hnext a hae, if_neg hp]) (by simpa [hn] using hprev a hae)

/-- `dlist_unlink` ends with `dlist_init_el`. -/
theorem dlistUnlink_link_self (hs : dlistUnlink el s = some s') : s'.link el = ⟨none, none⟩ := by
  unfold dlistUnlink at hs
  split_ifs at hs
  cases hs
  exact DlistEl.ext (by simp [dlistInitEl]) (by simp [dlistInitEl])

/-- **An operation changes the link field of no element outside the list but its own.** -/
theorem DlistOp.rahmen {o : DlistOp} (h : Darstellt s xs) (ho : o.zulaessig xs = true)
    (hs : o.ausfuehren s = some s') (ha : a ∉ xs) (hae : a ≠ o.element) : s'.link a = s.link a := by
  cases o with
  | append e => exact dlistAppend_rahmen h hs ha hae
  | prepend e => exact dlistPrepend_rahmen h hs ha hae
  | unlink e => exact dlistUnlink_rahmen h (by simpa [DlistOp.zulaessig] using ho) hs ha
  | relinkTail e | relinkHead e =>
    have he : e ∈ xs := by simpa [DlistOp.zulaessig] using ho
    obtain ⟨s₁, h₁, h₂⟩ := Option.bind_eq_some.mp hs
    obtain ⟨ys, zs, rfl⟩ := List.append_of_mem he
    obtain ⟨t, ht, hd⟩ := darstellt_unlink h
    cases ht.symm.trans h₁
    have ha' : a ∉ ys ++ zs := fun hm => ha (by
      simp only [List.mem_append, List.mem_cons] at hm ⊢; tauto)
    rw [← dlistUnlink_rahmen h he ht ha]
    first
      | exact dlistAppend_rahmen hd h₂ ha' hae
      | exact dlistPrepend_rahmen hd h₂ ha' hae

end Rahmen

/-! ## 2. Elements outside the list keep `NULL` links -/

section Ruhe

variable {s s' : Dlist} {xs : List Nat} {el : Nat}

theorem mem_folge {o : DlistOp} (he : o.element ≠ el) : el ∈ o.folge xs ↔ el ∈ xs := by
  cases o <;> simp only [DlistOp.element] at he <;>
    simp [DlistOp.folge, List.mem_erase_of_ne (Ne.symm he), Ne.symm he]

theorem ruht_schritt {o : DlistOp} (h : Darstellt s xs) (ho : o.zulaessig xs = true)
    (hs : o.ausfuehren s = some s') (hr : Ruht el s xs ∨ o.element = el) :
    Ruht el s' (o.folge xs) := by
  intro hel
  by_cases he : o.element = el
  · cases o with
    | unlink e => cases he; exact dlistUnlink_link_self hs
    | append e | prepend e | relinkTail e | relinkHead e =>
      cases he; simp [DlistOp.folge, DlistOp.element] at hel
  · have hx : el ∉ xs := fun hx => hel ((mem_folge he).mpr hx)
    rw [DlistOp.rahmen h ho hs hx (Ne.symm he), hr.resolve_right he hx]

theorem ruht_ausfuehren : ∀ (os : List DlistOp) {s s' : Dlist} {xs : List Nat},
    Darstellt s xs → zulaessig os xs = true → ausfuehren os s = some s' →
      Ruht el s xs ∨ el ∈ os.map DlistOp.element → Ruht el s' (folgeVon os xs)
  | [], _, _, _, _, _, hs, hr => by
    cases hs; exact hr.resolve_right (List.not_mem_nil _)
  | o :: os, s, s', xs, h, hz, hs, hr => by
    simp only [zulaessig, Bool.and_eq_true] at hz
    obtain ⟨s₁, h₁, h₂⟩ := Option.bind_eq_some.mp hs
    obtain ⟨t, ht, hd⟩ := darstellt_schritt h hz.1
    cases ht.symm.trans h₁
    rw [List.map_cons, List.mem_cons] at hr
    refine ruht_ausfuehren os hd hz.2 h₂ ?_
    rcases hr with hr | he | hr
    · exact .inl (ruht_schritt h hz.1 ht (.inl hr))
    · exact .inl (ruht_schritt h hz.1 ht (.inr he.symm))
    · exact .inr hr

/-- On a list of `xs` whose outside elements rest, `dlist_is_linked` is membership: a member is
    `first` or has a predecessor. -/
theorem dlistIsLinked_iff (h : Darstellt s xs) (hr : Ruht el s xs) :
    dlistIsLinked el s = true ↔ el ∈ xs := by
  by_cases hel : el ∈ xs
  · simp only [hel, iff_true]
    obtain ⟨ys, zs, rfl⟩ := List.append_of_mem hel
    have hp : (s.link el).prev = ys.getLast? := (h.prev el hel).trans (vorgaenger_mitte h.nodup)
    cases ys with
    | nil => simp [dlistIsLinked, h.vor.first]
    | cons y ys => simp [dlistIsLinked, hp]
  · have hf : s.first ≠ some el := fun e => hel (List.mem_of_mem_head? (h.vor.first ▸ e))
    have hl : s.last ≠ some el := fun e => hel (List.mem_of_getLast?_eq_some (h.last ▸ e))
    simp [dlistIsLinked, hr hel, hf, hl, hel]

end Ruhe

/-! ## 3. Runs -/

/-- **`dlist_is_linked` is exact on the list dlist.h built.** After every run of operations from
    `dlist_init_head`, each on an element it may take, `dlist_is_linked` holds of an element
    exactly when it is in the list, for every element whose link field is `NULL` before the run
    (`dlist_init_el`) or that the run takes (`dlist_unlink` resets it when it leaves); also for the
    sole element of a list, whose two links are `NULL`. -/
theorem dlistIsLinked_genau (s₀ : Dlist) (os : List DlistOp) (h : zulaessig os [] = true)
    (el : Nat) (hel : s₀.link el = ⟨none, none⟩ ∨ el ∈ os.map DlistOp.element) :
    ∃ s, ausfuehren os (dlistInitHead s₀) = some s ∧
      (dlistIsLinked el s = true ↔ el ∈ folgeVon os []) := by
  obtain ⟨s, hs, hd⟩ := darstellt_ausfuehren os (darstellt_initHead s₀) h
  exact ⟨s, hs, dlistIsLinked_iff hd
    (ruht_ausfuehren os (darstellt_initHead s₀) h hs (hel.imp_left fun h0 _ => h0))⟩

/-- A list of one element: it is linked, with both of its links `NULL`. -/
theorem dlistIsLinked_genau_einzeln :
    zulaessig [.append 1] [] = true ∧
    ((⟨none, none, fun _ => ⟨none, none⟩⟩ : Dlist).link 1 = ⟨none, none⟩ ∨
      1 ∈ [DlistOp.append 1].map DlistOp.element) ∧
    ∃ s, ausfuehren [.append 1] (dlistInitHead ⟨none, none, fun _ => ⟨none, none⟩⟩) = some s ∧
      (dlistIsLinked 1 s = true ↔ 1 ∈ folgeVon [.append 1] []) :=
  ⟨by decide, .inl rfl, dlistIsLinked_genau _ _ (by decide) 1 (.inl rfl)⟩

example : (dlistAppend 1 (dlistInitHead ⟨none, none, fun _ => ⟨none, none⟩⟩)).map
    (fun s => (s.link 1, dlistIsLinked 1 s)) = some (⟨none, none⟩, true) := by decide

end Minicache
