/-
  File:      Minicache/Dlist/Verfeinerung.lean
  Subject:   dlist.h refines a finite sequence.

  Every run of `dlist_append`, `dlist_prepend`, `dlist_unlink`, `dlist_relink_tail` and
  `dlist_relink_head` on one head from `dlist_init_head`, each on an element it may take, keeps
  the pointers a well-formed doubly linked list of the sequence that snoc, cons, erase,
  move-to-back and move-to-front make of `[]`; no `BUG_ON` fires, and both traversals visit that
  sequence, forwards and backwards, and stop.

  * `Darstellt s xs` -- the pointers of `s` spell `xs`: the forward half `Vorwaerts` (`first` and
    every `next`) of `s` for `xs`, and of the mirror of `s` for `xs.reverse`. What is proved of
    the forward half at the tail end holds at the head end through the mirror;
  * `darstellt_append`, `darstellt_prepend`, `darstellt_unlink` -- one macro;
  * `darstellt_schritt`, `darstellt_ausfuehren` -- one operation, a run;
  * `Darstellt.foreach`, `Darstellt.wohlgeformt` -- what a reader of the list finds;
  * `dlist_verfeinert` -- the whole run.
-/
import Minicache.Dlist.Zeiger
import Mathlib.Data.List.Nodup

namespace Minicache

/-! ## 1. The sequence -/

/-- What an operation does to the sequence: snoc, cons, erase, move to the back, move to the
    front. -/
def DlistOp.folge : DlistOp → List Nat → List Nat
  | .append el, xs => xs ++ [el]
  | .prepend el, xs => el :: xs
  | .unlink el, xs => xs.erase el
  | .relinkTail el, xs => xs.erase el ++ [el]
  | .relinkHead el, xs => el :: xs.erase el

/-- Whether an operation takes an element it may: append and prepend one not in the list,
    unlink and the relinks one in it. -/
def DlistOp.zulaessig : DlistOp → List Nat → Bool
  | .append el, xs | .prepend el, xs => decide (el ∉ xs)
  | .unlink el, xs | .relinkTail el, xs | .relinkHead el, xs => decide (el ∈ xs)

/-- The sequence a run of operations makes of `xs`. -/
def folgeVon : List DlistOp → List Nat → List Nat
  | [], xs => xs
  | o :: os, xs => folgeVon os (o.folge xs)

/-- Whether every operation of a run takes an element it may. -/
def zulaessig : List DlistOp → List Nat → Bool
  | [], _ => true
  | o :: os, xs => o.zulaessig xs && zulaessig os (o.folge xs)

/-! ## 2. Neighbours in a sequence -/

/-- The element after `a` in `xs`, `none` after the last. -/
def nachfolger : List Nat → Nat → Option Nat
  | [], _ => none
  | x :: r, a => if a = x then r.head? else nachfolger r a

/-- The element before `a` in `xs`. -/
def vorgaenger (xs : List Nat) (a : Nat) : Option Nat := nachfolger xs.reverse a

/-- **The successor in a concatenation** is the one in its part, except at the last element of
    the first part, whose successor is the first element of the second. -/
theorem nachfolger_append {ys zs : List Nat} (h : (ys ++ zs).Nodup) (b : Nat) :
    nachfolger (ys ++ zs) b =
      if b ∈ ys then (if ys.getLast? = some b then zs.head? else nachfolger ys b)
      else nachfolger zs b := by
  induction ys with
  | nil => simp
  | cons x r ih =>
    rw [List.cons_append, List.nodup_cons] at h
    have hx : x ∉ r := fun hm => h.1 (List.mem_append_left zs hm)
    show (if b = x then (r ++ zs).head? else nachfolger (r ++ zs) b) = _
    rw [ih h.2]
    cases r with
    | nil => by_cases hb : b = x <;> simp [hb, nachfolger]
    | cons y r =>
      by_cases hb : b = x
      · subst hb
        have hl : (y :: r).getLast? ≠ some b := fun hl => hx (List.mem_of_getLast?_eq_some hl)
        simp [hl, nachfolger, List.getLast?_cons_cons]
      · simp [hb, nachfolger, List.getLast?_cons_cons]

theorem nachfolger_mitte {ys zs : List Nat} {a : Nat} (h : (ys ++ a :: zs).Nodup) :
    nachfolger (ys ++ a :: zs) a = zs.head? := by
  have ha : a ∉ ys := fun hm => (List.nodup_append.mp h).2.2 hm (List.mem_cons_self a zs)
  rw [nachfolger_append h, if_neg ha, nachfolger, if_pos rfl]

theorem vorgaenger_mitte {ys zs : List Nat} {a : Nat} (h : (ys ++ a :: zs).Nodup) :
    vorgaenger (ys ++ a :: zs) a = ys.getLast? := by
  have hr : (ys ++ a :: zs).reverse = zs.reverse ++ a :: ys.reverse := by simp
  have h' := List.nodup_reverse.mpr h
  rw [hr] at h'
  rw [vorgaenger, hr, nachfolger_mitte h', List.head?_reverse]

theorem nachfolger_eq_some {xs : List Nat} {a b : Nat} (h : xs.Nodup) :
    nachfolger xs a = some b ↔ ∃ ys zs, xs = ys ++ a :: b :: zs := by
  constructor
  · induction xs with
    | nil => simp [nachfolger]
    | cons x r ih =>
      intro hn
      simp only [nachfolger] at hn
      split at hn
      · rename_i hax
        subst hax
        obtain ⟨zs, rfl⟩ := List.head?_eq_some_iff.mp hn
        exact ⟨[], zs, rfl⟩
      · obtain ⟨ys, zs, rfl⟩ := ih (List.nodup_cons.mp h).2 hn
        exact ⟨x :: ys, zs, rfl⟩
  · rintro ⟨ys, zs, rfl⟩
    rw [nachfolger_mitte h]
    rfl

/-- **`b` follows `a` exactly when `a` precedes `b`.** -/
theorem nachfolger_iff_vorgaenger {xs : List Nat} {a b : Nat} (h : xs.Nodup) :
    nachfolger xs a = some b ↔ vorgaenger xs b = some a := by
  rw [vorgaenger, nachfolger_eq_some h, nachfolger_eq_some (List.nodup_reverse.mpr h)]
  constructor
  · rintro ⟨ys, zs, rfl⟩
    exact ⟨zs.reverse, ys.reverse, by simp⟩
  · rintro ⟨ys, zs, hr⟩
    rw [List.reverse_eq_append_iff] at hr
    exact ⟨zs.reverse, ys.reverse, by simpa using hr⟩

theorem mem_of_nachfolger {xs : List Nat} {a b : Nat} (h : nachfolger xs a = some b) : b ∈ xs := by
  induction xs with
  | nil => simp [nachfolger] at h
  | cons x r ih =>
    simp only [nachfolger] at h
    split at h
    · exact List.mem_cons_of_mem x (List.mem_of_mem_head? h)
    · exact List.mem_cons_of_mem x (ih h)

theorem erase_mitte {ys zs : List Nat} {a : Nat} (h : (ys ++ a :: zs).Nodup) :
    (ys ++ a :: zs).erase a = ys ++ zs := by
  rw [List.erase_append_right _ fun hm => (List.nodup_append.mp h).2.2 hm (List.mem_cons_self a zs),
    List.erase_cons_head]

theorem nodup_ohne {ys zs : List Nat} {a : Nat} (h : (ys ++ a :: zs).Nodup) :
    a ∉ ys ++ zs ∧ (ys ++ zs).Nodup :=
  List.nodup_cons.mp (List.nodup_middle.mp h)

/-! ## 3. The pointers of a list of `xs` -/

/-- The forward half of the pointers of a list of `xs`: `first` is its first element, and the
    `next` of each element the one after it. -/
structure Vorwaerts (s : Dlist) (xs : List Nat) : Prop where
  first : s.first = xs.head?
  next : ∀ a ∈ xs, (s.link a).next = nachfolger xs a

/-- **The pointers of `s` spell the sequence `xs`**, read from either end. -/
structure Darstellt (s : Dlist) (xs : List Nat) : Prop where
  nodup : xs.Nodup
  vor : Vorwaerts s xs
  rueck : Vorwaerts s.spiegel xs.reverse

section Darstellung

variable {s : Dlist} {xs : List Nat}

theorem Darstellt.spiegel (h : Darstellt s xs) : Darstellt s.spiegel xs.reverse :=
  ⟨List.nodup_reverse.mpr h.nodup, h.rueck, by simpa using h.vor⟩

theorem Darstellt.last (h : Darstellt s xs) : s.last = xs.getLast? := by
  simpa using h.rueck.first

theorem Darstellt.prev (h : Darstellt s xs) (a : Nat) (ha : a ∈ xs) :
    (s.link a).prev = vorgaenger xs a :=
  h.rueck.next a (List.mem_reverse.mpr ha)

theorem Darstellt.leer (h : Darstellt s xs) : s.first = none ↔ s.last = none := by
  rw [h.vor.first, h.last, List.head?_eq_none_iff, List.getLast?_eq_none_iff]

theorem darstellt_initHead (s : Dlist) : Darstellt (dlistInitHead s) [] :=
  ⟨List.nodup_nil, ⟨rfl, by simp⟩, ⟨rfl, by simp⟩⟩

end Darstellung

/-! ## 4. One macro -/

/-- What `dlist_append` stores. -/
theorem dlistAppend_felder {s s' : Dlist} {el : Nat} (hs : dlistAppend el s = some s') :
    s'.first = (if s.first = none then some el else s.first) ∧ s'.last = some el ∧
    (∀ a, (s'.link a).next =
      if a = el then none else if s.first ≠ none ∧ s.last = some a then some el
      else (s.link a).next) ∧
    (∀ a, (s'.link a).prev =
      if a = el then (if s.first = none then none else s.last) else (s.link a).prev) := by
  simp only [dlistAppend, dlistIsEmpty, Option.isNone_iff_eq_none] at hs
  split at hs
  · rename_i hf
    cases hs
    refine ⟨by simp [hf], rfl, fun a => ?_, fun a => ?_⟩ <;> by_cases ha : a = el <;> simp [ha, hf]
  · rename_i hf
    cases hl : s.last with
    | none => simp [hl] at hs
    | some l =>
      simp only [hl, bind, Option.bind, Option.some.injEq] at hs
      subst hs
      refine ⟨by simp [hf], rfl, fun a => ?_, fun a => ?_⟩ <;> by_cases ha : a = el <;>
        simp [ha, hf, eq_comm]

theorem darstellt_append {s : Dlist} {xs : List Nat} {el : Nat} (h : Darstellt s xs)
    (hel : el ∉ xs) : ∃ s', dlistAppend el s = some s' ∧ Darstellt s' (xs ++ [el]) := by
  have hnd : (xs ++ [el]).Nodup :=
    List.nodup_append.mpr ⟨h.nodup, List.nodup_singleton el, fun a ha hb => by simp_all⟩
  have hfirst : s.first = none ↔ xs = [] := by rw [h.vor.first, List.head?_eq_none_iff]
  obtain ⟨s', hs⟩ : ∃ s', dlistAppend el s = some s' := by
    cases hf : s.first with
    | none => simp only [dlistAppend, dlistIsEmpty, hf]; exact ⟨_, rfl⟩
    | some f =>
      cases hl : s.last with
      | none => exact absurd (h.leer.mpr hl) (by simp [hf])
      | some l => simp only [dlistAppend, dlistIsEmpty, hf, hl]; exact ⟨_, rfl⟩
  obtain ⟨hf', hl', hn', hp'⟩ := dlistAppend_felder hs
  refine ⟨s', hs, hnd, ⟨?_, fun a ha => ?_⟩, ⟨by simp [hl'], fun a ha => ?_⟩⟩
  · rw [hf', h.vor.first]
    cases xs <;> simp
  · rw [hn' a, nachfolger_append hnd]
    by_cases hae : a = el
    · simp [hae, hel, nachfolger]
    · have hax : a ∈ xs := by simpa [hae] using ha
      have hne : xs ≠ [] := List.ne_nil_of_mem hax
      simp [hae, hax, hfirst, hne, h.last, h.vor.next a hax]
  · simp only [List.reverse_append, List.reverse_singleton, List.singleton_append] at ha ⊢
    show (s'.link a).prev = nachfolger (el :: xs.reverse) a
    rw [hp' a, nachfolger]
    by_cases hae : a = el
    · simp only [hae, if_true, hfirst, List.head?_reverse, h.last]
      split <;> simp_all
    · simp only [hae, if_false]
      exact h.prev a (by simpa [hae] using ha)

theorem darstellt_prepend {s : Dlist} {xs : List Nat} {el : Nat} (h : Darstellt s xs)
    (hel : el ∉ xs) : ∃ s', dlistPrepend el s = some s' ∧ Darstellt s' (el :: xs) := by
  obtain ⟨t, ht, hd⟩ := darstellt_append h.spiegel (by simpa using hel)
  exact ⟨t.spiegel, by rw [dlistPrepend_eq el h.leer, ht]; rfl, by simpa using hd.spiegel⟩

/-- What `dlist_unlink` stores at the front: `first`, and the `next` of the predecessor. -/
theorem dlistUnlink_felder {s s' : Dlist} {el : Nat} (hs : dlistUnlink el s = some s') :
    s'.first = (if (s.link el).prev = none then (s.link el).next else s.first) ∧
    ∀ a, a ≠ el →
      (s'.link a).next = if (s.link el).prev = some a then (s.link el).next else (s.link a).next := by
  unfold dlistUnlink dlistInitEl at hs
  split_ifs at hs
  cases hs
  cases hp : (s.link el).prev <;> cases hn : (s.link el).next <;>
    refine ⟨by simp [hp, hn], fun a ha => ?_⟩ <;> simp [hp, hn, ha, eq_comm]

/-- **No `BUG_ON` of `dlist_unlink` fires** on an element of the list. -/
theorem dlistUnlink_some {s : Dlist} {ys zs : List Nat} {el : Nat}
    (h : Darstellt s (ys ++ el :: zs)) : ∃ s', dlistUnlink el s = some s' := by
  have hp : (s.link el).prev = ys.getLast? :=
    (h.prev el (by simp)).trans (vorgaenger_mitte h.nodup)
  have hn : (s.link el).next = zs.head? :=
    (h.vor.next el (by simp)).trans (nachfolger_mitte h.nodup)
  have c1 : ¬((s.link el).prev = none ∧ s.first ≠ some el) := by
    rintro ⟨h1, h2⟩
    rw [hp, List.getLast?_eq_none_iff] at h1
    subst h1
    exact h2 (by simpa using h.vor.first)
  have c2 : ¬((s.link el).next = none ∧ s.last ≠ some el) := by
    rintro ⟨h1, h2⟩
    rw [hn, List.head?_eq_none_iff] at h1
    subst h1
    exact h2 (by simpa using h.last)
  simp only [dlistUnlink, if_neg c1, if_neg c2]
  exact ⟨_, rfl⟩

theorem vorwaerts_unlink {s s' : Dlist} {ys zs : List Nat} {el : Nat}
    (h : Darstellt s (ys ++ el :: zs)) (hs : dlistUnlink el s = some s') : Vorwaerts s' (ys ++ zs) := by
  have hp : (s.link el).prev = ys.getLast? :=
    (h.prev el (by simp)).trans (vorgaenger_mitte h.nodup)
  have hn : (s.link el).next = zs.head? :=
    (h.vor.next el (by simp)).trans (nachfolger_mitte h.nodup)
  obtain ⟨hel, hnd⟩ := nodup_ohne h.nodup
  obtain ⟨hf, hnext⟩ := dlistUnlink_felder hs
  constructor
  · rw [hf, hp, hn, h.vor.first]
    cases ys <;> simp
  · intro a ha
    have hae : a ≠ el := fun e => hel (e ▸ ha)
    have ha' : a ∈ ys ++ el :: zs := by simp only [List.mem_append, List.mem_cons] at ha ⊢; tauto
    rw [hnext a hae, hp, hn, h.vor.next a ha', nachfolger_append h.nodup, nachfolger_append hnd]
    by_cases hl : ys.getLast? = some a
    · simp [hl, List.mem_of_getLast?_eq_some hl]
    · simp [hl, nachfolger, hae]

theorem darstellt_unlink {s : Dlist} {ys zs : List Nat} {el : Nat}
    (h : Darstellt s (ys ++ el :: zs)) : ∃ s', dlistUnlink el s = some s' ∧ Darstellt s' (ys ++ zs) := by
  obtain ⟨s', hs⟩ := dlistUnlink_some h
  have hm := h.spiegel
  rw [show (ys ++ el :: zs).reverse = zs.reverse ++ el :: ys.reverse by simp] at hm
  have hr := vorwaerts_unlink hm (by rw [dlistUnlink_spiegel, hs]; rfl)
  exact ⟨s', hs, (nodup_ohne h.nodup).2, vorwaerts_unlink h hs, by simpa using hr⟩

/-! ## 5. Runs -/

theorem darstellt_schritt {s : Dlist} {xs : List Nat} {o : DlistOp} (h : Darstellt s xs)
    (ho : o.zulaessig xs = true) : ∃ s', o.ausfuehren s = some s' ∧ Darstellt s' (o.folge xs) := by
  cases o with
  | append el => exact darstellt_append h (by simpa [DlistOp.zulaessig] using ho)
  | prepend el => exact darstellt_prepend h (by simpa [DlistOp.zulaessig] using ho)
  | unlink el =>
    obtain ⟨ys, zs, rfl⟩ := List.append_of_mem (by simpa [DlistOp.zulaessig] using ho)
    rw [DlistOp.folge, erase_mitte h.nodup]
    exact darstellt_unlink h
  | relinkTail el =>
    obtain ⟨ys, zs, rfl⟩ := List.append_of_mem (by simpa [DlistOp.zulaessig] using ho)
    obtain ⟨s₁, h₁, hd₁⟩ := darstellt_unlink h
    obtain ⟨s₂, h₂, hd₂⟩ := darstellt_append hd₁ (nodup_ohne h.nodup).1
    rw [DlistOp.folge, erase_mitte h.nodup]
    exact ⟨s₂, by simp [DlistOp.ausfuehren, dlistRelinkTail, h₁, h₂], hd₂⟩
  | relinkHead el =>
    obtain ⟨ys, zs, rfl⟩ := List.append_of_mem (by simpa [DlistOp.zulaessig] using ho)
    obtain ⟨s₁, h₁, hd₁⟩ := darstellt_unlink h
    obtain ⟨s₂, h₂, hd₂⟩ := darstellt_prepend hd₁ (nodup_ohne h.nodup).1
    rw [DlistOp.folge, erase_mitte h.nodup]
    exact ⟨s₂, by simp [DlistOp.ausfuehren, dlistRelinkHead, h₁, h₂], hd₂⟩

theorem darstellt_ausfuehren : ∀ (os : List DlistOp) {s : Dlist} {xs : List Nat},
    Darstellt s xs → zulaessig os xs = true →
      ∃ s', ausfuehren os s = some s' ∧ Darstellt s' (folgeVon os xs)
  | [], s, _, h, _ => ⟨s, rfl, h⟩
  | o :: os, _, _, h, hz => by
    simp only [zulaessig, Bool.and_eq_true] at hz
    obtain ⟨s₁, h₁, hd₁⟩ := darstellt_schritt h hz.1
    obtain ⟨s₂, h₂, hd₂⟩ := darstellt_ausfuehren os hd₁ hz.2
    exact ⟨s₂, by simp [ausfuehren, h₁, h₂], hd₂⟩

/-! ## 6. What a reader of the list finds -/

/-- Following `next` from an element of `xs` visits the rest of `xs` and reaches `NULL`. -/
theorem durchlauf_vorwaerts {s : Dlist} {xs : List Nat} (hn : xs.Nodup)
    (hv : ∀ a ∈ xs, (s.link a).next = nachfolger xs a) :
    ∀ (zs ys : List Nat) (fuel : Nat), xs = ys ++ zs → zs.length ≤ fuel →
      durchlauf (fun a => (s.link a).next) fuel zs.head? = some zs
  | [], _, fuel, _, _ => by cases fuel <;> rfl
  | _ :: _, _, 0, _, hf => absurd hf (by simp)
  | c :: r, ys, fuel + 1, hx, hf => by
    have hc : (s.link c).next = r.head? := by
      rw [hv c (by simp [hx]), hx, nachfolger_mitte (hx ▸ hn)]
    have hr := durchlauf_vorwaerts hn hv r (ys ++ [c]) fuel (by simp [hx])
      (Nat.le_of_succ_le_succ hf)
    simp only [List.head?_cons, durchlauf, hc, hr, Option.map_some']

/-- **Both traversals visit the list and stop**: within `|xs|` steps, `dlist_foreach` visits
    `xs` and `dlist_foreach_reverse` its reverse. -/
theorem Darstellt.foreach {s : Dlist} {xs : List Nat} (h : Darstellt s xs) {fuel : Nat}
    (hf : xs.length ≤ fuel) :
    dlistForeach fuel s = some xs ∧ dlistForeachReverse fuel s = some xs.reverse := by
  constructor
  · rw [dlistForeach, h.vor.first]
    exact durchlauf_vorwaerts h.nodup h.vor.next xs [] fuel rfl hf
  · rw [dlistForeachReverse_eq, dlistForeach, h.rueck.first]
    exact durchlauf_vorwaerts (List.nodup_reverse.mpr h.nodup) h.rueck.next xs.reverse [] fuel rfl
      (by simpa using hf)

/-- **A well-formed doubly linked list of `xs`**: no element twice, `first` and `last` its ends
    (so both are `NULL` exactly when it is empty), `NULL` before the first element and after the
    last, `next` and `prev` inverse on its elements and never leading out of them. -/
structure Wohlgeformt (s : Dlist) (xs : List Nat) : Prop where
  nodup : xs.Nodup
  first : s.first = xs.head?
  last : s.last = xs.getLast?
  firstPrev : ∀ a, s.first = some a → (s.link a).prev = none
  lastNext : ∀ a, s.last = some a → (s.link a).next = none
  invers : ∀ a ∈ xs, ∀ b ∈ xs, (s.link a).next = some b ↔ (s.link b).prev = some a
  nextMem : ∀ a ∈ xs, ∀ b, (s.link a).next = some b → b ∈ xs
  prevMem : ∀ a ∈ xs, ∀ b, (s.link a).prev = some b → b ∈ xs

theorem Darstellt.wohlgeformt {s : Dlist} {xs : List Nat} (h : Darstellt s xs) :
    Wohlgeformt s xs where
  nodup := h.nodup
  first := h.vor.first
  last := h.last
  firstPrev a ha := by
    obtain ⟨r, rfl⟩ := List.head?_eq_some_iff.mp (h.vor.first ▸ ha)
    exact (h.prev a (by simp)).trans (@vorgaenger_mitte [] r a h.nodup)
  lastNext a ha := by
    obtain ⟨ys, rfl⟩ := List.getLast?_eq_some_iff.mp (h.last ▸ ha)
    exact (h.vor.next a (by simp)).trans (@nachfolger_mitte ys [] a h.nodup)
  invers a ha b hb := by
    rw [h.vor.next a ha, h.prev b hb]
    exact nachfolger_iff_vorgaenger h.nodup
  nextMem a ha b hb := mem_of_nachfolger ((h.vor.next a ha).symm.trans hb)
  prevMem a ha b hb := List.mem_reverse.mp (mem_of_nachfolger ((h.prev a ha).symm.trans hb))

/-- **dlist.h keeps a well-formed doubly linked list of the sequence its operations stand for.**
    Every run of operations from `dlist_init_head`, each on an element it may take, stops at no
    `BUG_ON` (and stores through no `NULL`), leaves a well-formed list of the sequence that
    snoc, cons, erase, move-to-back and move-to-front make of `[]`, and both traversals visit it,
    forwards and backwards, within as many steps as it has elements. -/
theorem dlist_verfeinert (s₀ : Dlist) (os : List DlistOp) (h : zulaessig os [] = true) :
    ∃ s, ausfuehren os (dlistInitHead s₀) = some s ∧ Wohlgeformt s (folgeVon os []) ∧
      ∀ fuel, (folgeVon os []).length ≤ fuel →
        dlistForeach fuel s = some (folgeVon os []) ∧
          dlistForeachReverse fuel s = some (folgeVon os []).reverse := by
  obtain ⟨s, hs, hd⟩ := darstellt_ausfuehren os (darstellt_initHead s₀) h
  exact ⟨s, hs, hd.wohlgeformt, fun _ hf => hd.foreach hf⟩

theorem dlist_verfeinert_lauf :
    zulaessig [.append 1, .append 2, .prepend 3, .relinkTail 3, .relinkHead 2, .unlink 1] [] = true ∧
    ∃ s, ausfuehren [.append 1, .append 2, .prepend 3, .relinkTail 3, .relinkHead 2, .unlink 1]
        (dlistInitHead ⟨none, none, fun _ => ⟨none, none⟩⟩) = some s ∧
      Wohlgeformt s (folgeVon [.append 1, .append 2, .prepend 3, .relinkTail 3, .relinkHead 2,
        .unlink 1] []) ∧
      ∀ fuel, (folgeVon [.append 1, .append 2, .prepend 3, .relinkTail 3, .relinkHead 2,
          .unlink 1] []).length ≤ fuel →
        dlistForeach fuel s = some (folgeVon [.append 1, .append 2, .prepend 3, .relinkTail 3,
          .relinkHead 2, .unlink 1] []) ∧
        dlistForeachReverse fuel s = some (folgeVon [.append 1, .append 2, .prepend 3,
          .relinkTail 3, .relinkHead 2, .unlink 1] []).reverse :=
  ⟨by decide, dlist_verfeinert _ _ (by decide)⟩

end Minicache
