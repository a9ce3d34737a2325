/-
  File:      Minicache/Shfs/Lauf.lean
  Subject:   The admin tool as a state machine: the members, `shfs_vol` while mounted, and one
             step per `mount_shfs`, `umount_shfs` or action.

  `main` mounts, runs the tokens of its command line in order and unmounts; a later process
  mounts again. A run of the tool over its life is any sequence of such steps (`schritt`), from a
  volume as `shfs_mkfs` leaves it (`Frisch`). An action's failure is part of its world and any
  action may follow any other, which covers every token list and every failure and `cancel`
  point of each action.

  A failed `mount_shfs` ends its process and leaves the members as they were. A write error in
  `umount_shfs` is fatal, and the source then declares the volume possibly corrupt; no run
  continues from it (`schritt` is `none`).
-/
import Minicache.Shfs.Mount
import Minicache.Shfs.Addfile
import Minicache.Shfs.Aktionen

namespace Minicache.Shfs

/-! ## 1. States and steps -/

/-- The members, and `shfs_vol` while a process has the volume mounted. -/
structure System where
  platte : Platte
  vol : Option Vol

/-- One step of the tool and the world it meets. -/
inductive Ereignis
  | mount (u : MountUmwelt)
  | umount (schreib : Nat → Bool)
  | addfile (j : Token) (u : AddfileUmwelt)
  | rmfile (j : Token)
  | catfile (j : Token) (u : CatUmwelt)
  | setdefault (j : Token)
  | cleardefault
  | ls
  | info (u : InfoUmwelt)

/-- What a step shows: the return code of an action, and what it writes to stdout. -/
inductive Ausgabe
  | keine
  | bytes (w : List (List UInt8))
  | zeilen (z : List LsZeile)
  | kopf (h : Option (HdrCommon × HdrConfig))
  deriving DecidableEq

variable (D : ShfsDefs) (H : List UInt8 → Nat)

/-- An action on the mounted volume: the members and `shfs_vol` after it, its return code and
    its output. -/
def aktion (p : Platte) (v : Vol) : Ereignis → Option (Platte × Vol × Int × Ausgabe)
  | .addfile j u => let (r, p, v) := actnAddfile D H u j p v; some (p, v, r, .keine)
  | .rmfile j => let (r, v) := actnRmfile j v; some (p, v, r, .keine)
  | .catfile j u => let (r, w) := actnCatfile u j p v; some (p, v, r, .bytes w)
  | .setdefault j => let (r, v) := actnSetdefault D j v; some (p, v, r, .keine)
  | .cleardefault => let (r, v) := actnCleardefault D v; some (p, v, r, .keine)
  | .ls => let (r, z) := actnLs D v; some (p, v, r, .zeilen z)
  | .info u => let (r, h) := actnInfo u p v; some (p, v, r, .kopf h)
  | _ => none

/-- One step of the tool, `none` where it cannot happen (an action without a mounted volume, a
    second mount, a failed write-back). -/
def schritt (s : System) (e : Ereignis) : Option (System × Int × Ausgabe) :=
  match s.vol, e with
  | none, .mount u =>
    match mountShfs D u s.platte with
    | none => some (s, -1, .keine)
    | some v => some (⟨s.platte, some v⟩, 0, .keine)
  | some v, .umount w => (umountShfs w v s.platte).map fun p => (⟨p, none⟩, 0, .keine)
  | some v, e => (aktion D H s.platte v e).map fun (p, v, r, a) => (⟨p, some v⟩, r, a)
  | none, _ => none

/-- What a step can do: a mount that fails and changes nothing, a mount, an unmount, or an
    action on the mounted volume. -/
theorem schritt_faelle {s s' : System} {e : Ereignis} {r : Int × Ausgabe}
    (h : schritt D H s e = some (s', r)) :
    (∃ u, s.vol = none ∧ e = .mount u ∧ mountShfs D u s.platte = none ∧ s' = s ∧
      r = (-1, .keine)) ∨
    (∃ u v, s.vol = none ∧ e = .mount u ∧ mountShfs D u s.platte = some v ∧
      s' = ⟨s.platte, some v⟩ ∧ r = (0, .keine)) ∨
    (∃ v w p, s.vol = some v ∧ e = .umount w ∧ umountShfs w v s.platte = some p ∧
      s' = ⟨p, none⟩ ∧ r = (0, .keine)) ∨
    (∃ v p v' r' a, s.vol = some v ∧ aktion D H s.platte v e = some (p, v', r', a) ∧
      s' = ⟨p, some v'⟩ ∧ r = (r', a)) := by
  obtain ⟨p, vol⟩ := s
  cases vol with
  | none =>
    cases e with
    | mount u =>
      simp only [schritt] at h
      split at h <;> cases h
      · exact .inl ⟨u, rfl, rfl, ‹_›, rfl, rfl⟩
      · exact .inr (.inl ⟨u, _, rfl, rfl, ‹_›, rfl, rfl⟩)
    | _ => cases h
  | some v =>
    cases e with
    | umount w =>
      simp only [schritt, Option.map_eq_some'] at h
      obtain ⟨p', hp', he⟩ := h
      cases he
      exact .inr (.inr (.inl ⟨v, w, p', rfl, rfl, hp', rfl, rfl⟩))
    | _ =>
      simp only [schritt, Option.map_eq_some'] at h
      obtain ⟨⟨p', v', r', a⟩, hac, he⟩ := h
      cases he
      exact .inr (.inr (.inr ⟨v, p', v', r', a, rfl, hac, rfl, rfl⟩))

/-- A volume as `shfs_mkfs` leaves it: every record of its primary hash-table region is the
    all-zero one. -/
def Frisch (p : Platte) : Prop :=
  ∀ cs vs, loadVolCconf p.hdrCommon = some (cs, vs) →
    ∀ k < shfsHtableSizeChunks D p.hdrConfig cs, ∀ o,
      (p.chunk (p.hdrConfig.htableRef + k)).hentry o = Hentry.leer

/-- **The states the tool reaches** from a freshly made volume. -/
inductive Erreichbar : System → Prop
  | start (p : Platte) (h : Frisch D p) : Erreichbar ⟨p, none⟩
  | schritt {s s' : System} {e : Ereignis} {r : Int × Ausgabe} :
      Erreichbar s → schritt D H s e = some (s', r) → Erreichbar s'

/-! ## 2. Runs -/

/-- The steps of a list of events in order, with what each showed. -/
def lauf : System → List Ereignis → Option (System × List (Int × Ausgabe))
  | s, [] => some (s, [])
  | s, e :: es =>
    (schritt D H s e).bind fun (s, r) => (lauf s es).map fun (s, rs) => (s, r :: rs)

theorem erreichbar_lauf {s s' : System} {rs : List (Int × Ausgabe)} :
    ∀ {es : List Ereignis}, Erreichbar D H s → lauf D H s es = some (s', rs) → Erreichbar D H s'
  | [], hs, h => by simp only [lauf, Option.some.injEq, Prod.mk.injEq] at h; exact h.1 ▸ hs
  | e :: es, hs, h => by
    simp only [lauf, Option.bind_eq_some, Option.map_eq_some'] at h
    obtain ⟨⟨s₁, r⟩, h₁, ⟨s₂, rs₂⟩, h₂, he⟩ := h
    cases he
    exact erreichbar_lauf (Erreichbar.schritt hs h₁) h₂

/-! ## 3. An example volume -/

/-- The constants of an example build: 256-byte records, 32-byte MIME and 64-byte name fields,
    DEFAULT bit `1`, HIDDEN bit `2`. -/
def defs₀ : ShfsDefs := ⟨256, 32, 64, 1, 2, by decide, by decide⟩

/-- A stand-in digest for examples: one more than the byte sum modulo 255, so never the empty
    digest. -/
def hash₀ (fed : List UInt8) : Nat := fed.foldl (fun a b => a + b.toNat) 0 % 255 + 1

/-- A one-member COMBINED volume of chunks `0, …, 7` of 4096 bytes, its hash table of 2 buckets
    of 2 one-byte digests at chunk 2, no backup, FIRST-fit, every chunk zero. -/
def platte₀ : Platte :=
  ⟨⟨1, "vol", 4096, .combined, 7, 1, [1], 1⟩, ⟨2, 0, 2, 2, 1, .first⟩, fun _ => Chunk.null⟩

theorem frisch_platte₀ : Frisch defs₀ platte₀ := fun _ _ _ _ _ _ => rfl

/-- The mount in which every read succeeds. -/
def mountUmwelt₀ : MountUmwelt := ⟨fun _ => true, fun _ => Chunk.null, fun _ => false⟩

/-- The example volume, mounted. -/
def vol₀ : Vol := (mountShfs defs₀ mountUmwelt₀ platte₀).get (by decide)

theorem mountShfs_platte₀ : mountShfs defs₀ mountUmwelt₀ platte₀ = some vol₀ := rfl

end Minicache.Shfs
