/-
  File:      Minicache/Shfs/Haupt.lean
  Subject:   `main` of shfs_admin.c after its argument phase: the mount, the loop over the tokens,
             the unmount and the exit code; and processes of the tool one after another.

  `main` reads the global `cancel` before it mounts, before each token and after it unmounts.
  The signal handler only ever sets it, so the world answers these reads monotonically
  (`HauptUmwelt.abbruch_mono`). The reads of `cancel` inside an action belong to that action's
  world, as they do for `schritt`.

  * `fuehreAus_schritt` -- the `switch` on a token's action is one step of the state machine;
  * `tokenSchleife_lauf` -- the loop over the tokens is `lauf` over their events, in argv order up
    to the first check that finds `cancel` set, whatever the actions return;
  * `tokenSchleife_failed`, `tokenSchleife_vollstaendig`, `tokenSchleife_take` -- `failed` counts
    the negative return codes; with `cancel` unset every token runs, and a check that finds it
    set cuts the loop to the tokens before it;
  * **`hauptLauf_lauf`** -- a process leaves on the members what the state machine leaves after
    the mount, the loop's events and the unmount, and dies in the write-back exactly when that
    run's unmount fails;
  * **`hauptLauf_erfolg`** -- the exit code is `EXIT_SUCCESS` exactly when `cancel` stayed unset,
    the volume was mounted and written back, and every token ran and returned at least 0;
  * **`hauptLauf_abbruch`** -- a cancel seen before token `k` leaves the tokens before `k` run,
    the volume unmounted and the exit code `-2`;
  * **`prozesse_platteInv`** -- after any sequence of complete processes on a freshly made volume,
    whatever their command lines, failures and cancels, the members keep `PlatteInv`, and no two
    records of the primary region share a digest.

  NOT here: the messages `main` prints, `release_args`, and the `printf` of the signal handler.
-/
import Minicache.Shfs.Bestand
import Minicache.Shfs.Argumente

namespace Minicache.Shfs

/-! ## 1. The model -/

/-- What the world answers one process beyond its command line: the reads of `cancel` by `main`
    (check `0` before the mount, `i + 1` before token `i`, `n + 1` after the unmount of a list of
    `n` tokens), which once true stay true; the world of the mount; that of each token's action,
    by the token's index; the `sync_write_chunk` answers of the unmount. -/
structure HauptUmwelt where
  abbruch : Nat → Bool
  abbruch_mono : ∀ {i j}, i ≤ j → abbruch i = true → abbruch j = true
  mount : MountUmwelt
  addfile : Nat → AddfileUmwelt
  catfile : Nat → CatUmwelt
  info : Nat → InfoUmwelt
  umount : Nat → Bool

variable (D : ShfsDefs) (H : List UInt8 → Nat)

/-- The `switch (ctoken->action)` of `main` on its `i`-th token `t`: the members and `shfs_vol`
    after the action, its return code and what it writes to stdout. (Its `default` case is not
    reached: a token carries one of the seven actions.) -/
def fuehreAus (w : HauptUmwelt) (i : Nat) (t : Token) (p : Platte) (v : Vol) :
    Platte × Vol × Int × Ausgabe :=
  match t.action with
  | .addobj => let (r, p, v) := actnAddfile D H (w.addfile i) t p v; (p, v, r, .keine)
  | .rmobj => let (r, v) := actnRmfile t v; (p, v, r, .keine)
  | .catobj => let (r, o) := actnCatfile (w.catfile i) t p v; (p, v, r, .bytes o)
  | .setdefobj => let (r, v) := actnSetdefault D t v; (p, v, r, .keine)
  | .cleardefobj => let (r, v) := actnCleardefault D v; (p, v, r, .keine)
  | .lsobjs => let (r, z) := actnLs D v; (p, v, r, .zeilen z)
  | .showinfo => let (r, h) := actnInfo (w.info i) p v; (p, v, r, .kopf h)

/-- Where the loop over the tokens stands: the members, `shfs_vol`, `failed`, and the return code
    and output of each action run so far. -/
structure SchleifenStand where
  platte : Platte
  vol : Vol
  failed : Nat
  ausgaben : List (Int × Ausgabe)

/-- The loop `for (ctoken = args.tokens; ctoken != NULL; ctoken = ctoken->next)` of `main` from
    its `i`-th token, with `failed` actions failed so far. -/
def tokenSchleife (w : HauptUmwelt) : Nat → List Token → Platte → Vol → Nat → SchleifenStand
  | _, [], p, v, failed => ⟨p, v, failed, []⟩
  | i, t :: ts, p, v, failed =>
    if w.abbruch (i + 1) then ⟨p, v, failed, []⟩ else
    let (p, v, ret, a) := fuehreAus D H w i t p v
    let z := tokenSchleife w (i + 1) ts p v (if ret < 0 then failed + 1 else failed)
    { z with ausgaben := (ret, a) :: z.ausgaben }

/-- How a process ends: its exit code; the members afterwards, `none` when it died in the
    write-back of `umount_shfs`, which leaves them undetermined; and the return code and output
    of each action it ran. -/
structure Prozess where
  code : Int
  platte : Option Platte
  ausgaben : List (Int × Ausgabe)

/-- `main` after its argument phase, on the arguments `args` and the members `p`: the check of
    `cancel`, `mount_shfs` (which dies when no device is given or the volume cannot be mounted),
    the loop over the tokens, `umount_shfs`, and the exit code. -/
def hauptLauf (w : HauptUmwelt) (args : Args) (p : Platte) : Prozess :=
  if w.abbruch 0 then ⟨-2, some p, []⟩ else
  if args.devpath = [] then ⟨exitFailure, some p, []⟩ else
  match mountShfs D w.mount p with
  | none => ⟨exitFailure, some p, []⟩
  | some v =>
    let z := tokenSchleife D H w 0 args.tokens p v 0
    match umountShfs w.umount z.vol z.platte with
    | none => ⟨exitFailure, none, z.ausgaben⟩
    | some p =>
      if w.abbruch (args.tokens.length + 1) then ⟨-2, some p, z.ausgaben⟩
      else if z.failed ≠ 0 then ⟨exitFailure, some p, z.ausgaben⟩
      else ⟨exitSuccess, some p, z.ausgaben⟩

/-- `main` from its command line: the options `getopt_long` delivers and the device paths. -/
def haupt (w : HauptUmwelt) (es : List GetoptErgebnis) (devs : List String) (p : Platte) :
    Prozess :=
  match mainArgumente es devs with
  | .error c => ⟨c, some p, []⟩
  | .ok args => hauptLauf D H w args p

/-- Processes of the tool one after another on the members `p`, each with its options, device
    paths and world: the members after the last one, `none` once one dies in the write-back. -/
def prozesse : Platte → List (List GetoptErgebnis × List String × HauptUmwelt) → Option Platte
  | p, [] => some p
  | p, (es, devs, w) :: rest => (haupt D H w es devs p).platte.bind fun p => prozesse p rest

/-! ## 2. The events of a process -/

/-- The event of the state machine for the `i`-th token `t`. -/
def ereignisVon (w : HauptUmwelt) (i : Nat) (t : Token) : Ereignis :=
  match t.action with
  | .addobj => .addfile t (w.addfile i)
  | .rmobj => .rmfile t
  | .catobj => .catfile t (w.catfile i)
  | .setdefobj => .setdefault t
  | .cleardefobj => .cleardefault
  | .lsobjs => .ls
  | .showinfo => .info (w.info i)

/-- The events of the tokens from the `i`-th one on, up to the first check that finds `cancel`
    set. -/
def tokenEreignisse (w : HauptUmwelt) : Nat → List Token → List Ereignis
  | _, [] => []
  | i, t :: ts => if w.abbruch (i + 1) then [] else ereignisVon w i t :: tokenEreignisse w (i + 1) ts

/-- The steps of the state machine a process makes: none when it stops before `mount_shfs`
    reads the volume, the mount alone when that fails, else the mount, the events of its tokens
    and the unmount. -/
def hauptEreignisse (w : HauptUmwelt) (args : Args) (p : Platte) : List Ereignis :=
  if w.abbruch 0 = true ∨ args.devpath = [] then [] else
  match mountShfs D w.mount p with
  | none => [.mount w.mount]
  | some _ => .mount w.mount :: tokenEreignisse w 0 args.tokens ++ [.umount w.umount]

/-! ## 3. The loop over the tokens -/

/-- `lauf` over two lists of events is `lauf` over the first, then over the second. -/
theorem lauf_append (s : System) (es es' : List Ereignis) :
    lauf D H s (es ++ es') = (lauf D H s es).bind fun r =>
      (lauf D H r.1 es').map fun r' => (r'.1, r.2 ++ r'.2) := by
  induction es generalizing s with
  | nil => simp [lauf]
  | cons e es ih =>
    simp only [List.cons_append, lauf]
    cases schritt D H s e with
    | none => rfl
    | some x =>
      simp only [Option.some_bind]
      rw [List.append_eq, ih, Option.map_bind, Option.bind_map]
      congr 1
      funext r
      simp only [Function.comp, Option.map_map]
      rfl

section Schleife

variable (w : HauptUmwelt)

/-- **One token is one step**: the `switch` of `main` does what `schritt` does on the token's
    event. -/
theorem fuehreAus_schritt (i : Nat) (t : Token) (p : Platte) (v : Vol) :
    schritt D H ⟨p, some v⟩ (ereignisVon w i t) =
      some (⟨(fuehreAus D H w i t p v).1, some (fuehreAus D H w i t p v).2.1⟩,
        (fuehreAus D H w i t p v).2.2) := by
  unfold ereignisVon fuehreAus
  cases t.action <;> rfl

/-- **The loop is a run of the state machine**: from any mounted state it takes, in order, the
    steps of the tokens up to the first check that finds `cancel` set, whatever the actions
    return, and ends in the state, with the return codes and outputs, that `lauf` reaches. -/
theorem tokenSchleife_lauf : ∀ (ts : List Token) i p v failed,
    lauf D H ⟨p, some v⟩ (tokenEreignisse w i ts) =
      some (⟨(tokenSchleife D H w i ts p v failed).platte,
        some (tokenSchleife D H w i ts p v failed).vol⟩,
        (tokenSchleife D H w i ts p v failed).ausgaben)
  | [], _, _, _, _ => rfl
  | t :: ts, i, p, v, failed => by
    by_cases hc : w.abbruch (i + 1) = true
    · simp only [tokenEreignisse, tokenSchleife, hc, if_true]; rfl
    · simp only [tokenEreignisse, tokenSchleife, hc, Bool.false_eq_true, if_false, lauf,
        fuehreAus_schritt, Option.some_bind]
      rw [tokenSchleife_lauf ts (i + 1) _ _
        (if (fuehreAus D H w i t p v).2.2.1 < 0 then failed + 1 else failed)]
      rfl

/-- `failed` counts the actions of the loop that returned a negative code. -/
theorem tokenSchleife_failed : ∀ (ts : List Token) i p v failed,
    (tokenSchleife D H w i ts p v failed).failed =
      failed + (tokenSchleife D H w i ts p v failed).ausgaben.countP fun r => r.1 < 0
  | [], _, _, _, _ => rfl
  | t :: ts, i, p, v, failed => by
    by_cases hc : w.abbruch (i + 1) = true
    · simp only [tokenSchleife, hc, if_true, List.countP_nil, Nat.add_zero]
    · simp only [tokenSchleife, hc, Bool.false_eq_true, if_false, List.countP_cons,
        tokenSchleife_failed ts (i + 1)]
      by_cases hr : (fuehreAus D H w i t p v).2.2.1 < 0 <;>
        simp only [hr, decide_eq_true_eq, if_true, if_false] <;> omega

/-- With `cancel` unset at the check after the last token, the loop runs every token. -/
theorem tokenSchleife_vollstaendig : ∀ (ts : List Token) i p v failed,
    w.abbruch (i + ts.length) = false → (tokenSchleife D H w i ts p v failed).ausgaben.length = ts.length
  | [], _, _, _, _, _ => rfl
  | t :: ts, i, p, v, failed, hc => by
    have h1 : w.abbruch (i + 1) = false := by
      cases h : w.abbruch (i + 1)
      · rfl
      · rw [w.abbruch_mono (by simp only [List.length_cons]; omega) h] at hc; exact hc
    simp only [tokenSchleife, h1, Bool.false_eq_true, if_false, List.length_cons]
    rw [tokenSchleife_vollstaendig ts (i + 1) _ _ _ (by
      rw [show i + 1 + ts.length = i + (t :: ts).length by simp only [List.length_cons]; omega]
      exact hc)]

/-- A check before token `k` that finds `cancel` set cuts the loop to the tokens before it. -/
theorem tokenSchleife_take : ∀ (k : Nat) (ts : List Token) i p v failed,
    w.abbruch (i + k + 1) = true →
      tokenSchleife D H w i ts p v failed = tokenSchleife D H w i (ts.take k) p v failed
  | _, [], _, _, _, _, _ => by rw [List.take_nil]
  | 0, t :: ts, i, p, v, failed, hk => by
    simp only [tokenSchleife, List.take_zero, Nat.add_zero, hk, if_true]
  | k + 1, t :: ts, i, p, v, failed, hk => by
    simp only [tokenSchleife, List.take_succ_cons]
    split
    · rfl
    · rw [tokenSchleife_take k ts (i + 1) _ _ _ (by rw [← hk]; congr 1; omega)]

end Schleife

/-! ## 4. A process -/

section Prozess

variable (w : HauptUmwelt) (args : Args)

/-- **A process is a run of the state machine.** What `main` leaves on the members after its
    argument phase is what the state machine leaves after `hauptEreignisse`: nothing changed when
    it stops before the mount or the mount fails, else the members after the mount, the events of
    the tokens its loop ran and the unmount; and the process dies in the write-back exactly when
    that run's unmount step fails. -/
theorem hauptLauf_lauf (p : Platte) :
    (lauf D H ⟨p, none⟩ (hauptEreignisse D w args p)).map (·.1) =
      (hauptLauf D H w args p).platte.map fun p' => ⟨p', none⟩ := by
  unfold hauptEreignisse hauptLauf
  by_cases h0 : w.abbruch 0 = true
  · simp only [h0, true_or, if_true]; rfl
  by_cases hd : args.devpath = []
  · simp only [h0, hd, or_true, if_true, Bool.false_eq_true, if_false]; rfl
  simp only [h0, hd, or_false, Bool.false_eq_true, if_false]
  cases hm : mountShfs D w.mount p with
  | none => simp only [lauf, schritt, hm]; rfl
  | some v =>
    simp only [List.cons_append, lauf, schritt, hm, Option.some_bind, List.append_eq]
    rw [lauf_append, tokenSchleife_lauf D H w args.tokens 0 p v 0]
    simp only [Option.some_bind, lauf, schritt]
    cases umountShfs w.umount (tokenSchleife D H w 0 args.tokens p v 0).vol
      (tokenSchleife D H w 0 args.tokens p v 0).platte with
    | none => rfl
    | some p' => split_ifs <;> rfl

/-- **The exit code.** A process after its argument phase exits with `EXIT_SUCCESS` exactly when
    `cancel` stayed unset, it was given a device, the volume was mounted and written back, and
    every token ran and returned a code of at least 0. -/
theorem hauptLauf_erfolg (p : Platte) :
    (hauptLauf D H w args p).code = exitSuccess ↔
      w.abbruch (args.tokens.length + 1) = false ∧ args.devpath ≠ [] ∧
      (mountShfs D w.mount p).isSome ∧ (hauptLauf D H w args p).platte.isSome ∧
      (hauptLauf D H w args p).ausgaben.length = args.tokens.length ∧
      ∀ r ∈ (hauptLauf D H w args p).ausgaben, 0 ≤ r.1 := by
  have hmono : w.abbruch 0 = true → w.abbruch (args.tokens.length + 1) = true :=
    w.abbruch_mono (Nat.zero_le _)
  unfold hauptLauf
  by_cases h0 : w.abbruch 0 = true
  · simp [h0, hmono h0, exitSuccess]
  by_cases hd : args.devpath = []
  · simp [h0, hd, exitSuccess, exitFailure]
  simp only [h0, hd, Bool.false_eq_true, if_false, ne_eq, not_false_eq_true, true_and]
  cases hm : mountShfs D w.mount p with
  | none => simp [exitSuccess, exitFailure]
  | some v =>
    have hz := tokenSchleife_failed D H w args.tokens 0 p v 0
    cases hu : umountShfs w.umount (tokenSchleife D H w 0 args.tokens p v 0).vol
      (tokenSchleife D H w 0 args.tokens p v 0).platte with
    | none => simp [hu, exitSuccess, exitFailure]
    | some p' =>
      by_cases he : w.abbruch (args.tokens.length + 1) = true
      · simp [hu, he, exitSuccess]
      have hl := tokenSchleife_vollstaendig D H w args.tokens 0 p v 0 (by
        cases h : w.abbruch (0 + args.tokens.length)
        · rfl
        · exact absurd (w.abbruch_mono (by omega) h) he)
      simp only [hu, he, hl, Bool.false_eq_true, if_false, Nat.zero_add, Option.isSome_some,
        true_and, hz] at hz ⊢
      split_ifs with hc
      · refine iff_of_true rfl ⟨rfl, hl, fun r hr => ?_⟩
        have := List.countP_eq_zero.mp hc r hr
        simp only [decide_eq_true_eq] at this
        omega
      · -- an action failed
        obtain ⟨r, hr, hneg⟩ := List.countP_pos_iff.mp (Nat.pos_of_ne_zero hc)
        refine iff_of_false (show ¬((exitFailure : Int) = exitSuccess) by decide)
          fun ⟨_, _, hall⟩ => ?_
        have := hall r hr
        simp only [decide_eq_true_eq] at hneg
        omega

/-- **A cancel stops `main` between tokens and still unmounts.** When the check before token
    `k` of a process that mounted the volume finds `cancel` set, the process is the loop over the
    tokens before `k`, then `umount_shfs`: it exits with the cancel code `-2`, or dies in the
    write-back; no later token runs, and `failed` no longer matters. -/
theorem hauptLauf_abbruch {p : Platte} {v : Vol} {k : Nat} (hkn : k ≤ args.tokens.length)
    (hk : w.abbruch (k + 1) = true) (h0 : w.abbruch 0 = false) (hd : args.devpath ≠ [])
    (hm : mountShfs D w.mount p = some v) :
    hauptLauf D H w args p =
      match umountShfs w.umount (tokenSchleife D H w 0 (args.tokens.take k) p v 0).vol
        (tokenSchleife D H w 0 (args.tokens.take k) p v 0).platte with
      | none => ⟨exitFailure, none, (tokenSchleife D H w 0 (args.tokens.take k) p v 0).ausgaben⟩
      | some p' => ⟨-2, some p', (tokenSchleife D H w 0 (args.tokens.take k) p v 0).ausgaben⟩ := by
  have hn : w.abbruch (args.tokens.length + 1) = true := w.abbruch_mono (by omega) hk
  unfold hauptLauf
  simp only [h0, hd, hm, Bool.false_eq_true, if_false,
    tokenSchleife_take D H w k args.tokens 0 p v 0 (by rw [Nat.zero_add]; exact hk)]
  split
  · rfl
  · simp only [hn, if_true]

end Prozess

/-! ## 5. Processes one after another -/

/-- A process started on a volume the tool reaches leaves a volume it reaches. -/
theorem haupt_erreichbar {w : HauptUmwelt} {es : List GetoptErgebnis} {devs : List String}
    {p p' : Platte} (hp : Erreichbar D H ⟨p, none⟩) (h : (haupt D H w es devs p).platte = some p') :
    Erreichbar D H ⟨p', none⟩ := by
  unfold haupt at h
  split at h
  · cases h; exact hp
  · rename_i args _
    have hl := hauptLauf_lauf D H w args p
    rw [h] at hl
    obtain ⟨⟨s, rs⟩, hl, hs⟩ := Option.map_eq_some'.mp hl
    cases hs
    exact erreichbar_lauf D H hp hl

theorem prozesse_erreichbar : ∀ (xs : List (List GetoptErgebnis × List String × HauptUmwelt))
    {p p' : Platte}, Erreichbar D H ⟨p, none⟩ → prozesse D H p xs = some p' →
      Erreichbar D H ⟨p', none⟩
  | [], _, _, hp, h => by cases h; exact hp
  | (es, devs, w) :: xs, _, _, hp, h => by
    simp only [prozesse, Option.bind_eq_some] at h
    obtain ⟨p₁, h₁, h₂⟩ := h
    exact prozesse_erreichbar xs (haupt_erreichbar D H hp h₁) h₂

/-- **What every process leaves behind.** After any sequence of processes of the tool on a freshly
    made volume, whatever their command lines, I/O failures and cancels, so long as none died in
    the write-back: the members keep `PlatteInv`, and no two records of the primary region share a
    non-empty digest. -/
theorem prozesse_platteInv {p₀ p : Platte} (h₀ : Frisch D p₀)
    (xs : List (List GetoptErgebnis × List String × HauptUmwelt)) (h : prozesse D H p₀ xs = some p) :
    PlatteInv D p ∧ ∀ cs vs, loadVolCconf p.hdrCommon = some (cs, vs) → 0 < (geoVon D p).htableLen →
      ∀ i < (geoVon D p).htableNbEntries, ∀ j < (geoVon D p).htableNbEntries,
        (p.slot D i).hash ≠ 0 → (p.slot D i).hash = (p.slot D j).hash → i = j := by
  have hp : PlatteInv D p := erreichbar_sysInv D H (prozesse_erreichbar D H xs (.start p₀ h₀) h)
  exact ⟨hp, fun cs vs hc hl => (hp cs vs hc hl).eindeutig⟩

/-- A world in which nothing fails and no signal comes: every read and write succeeds, the files
    to add are the one byte `1`. -/
def hauptUmwelt₀ : HauptUmwelt :=
  ⟨fun _ => false, fun _ h => h, mountUmwelt₀, fun _ => glatteUmwelt [1] Chunk.null 0,
    fun _ => ⟨some Chunk.null, fun _ => true, fun _ => true⟩, fun _ => ⟨false, true, true, true⟩,
    fun _ => true⟩

/-- The world of `hauptUmwelt₀`, with `SIGINT` arriving during the first token. -/
def hauptUmweltAbbruch : HauptUmwelt :=
  { hauptUmwelt₀ with
    abbruch := fun i => decide (2 ≤ i)
    abbruch_mono := fun hij h => decide_eq_true (Nat.le_trans (of_decide_eq_true h) hij) }

/-- `shfs_admin -a a -l /dev/ram15` on the example volume, cancelled during the add: the add runs,
    `-l` does not, and the volume is unmounted. -/
theorem hauptLauf_abbruch_platte₀ :
    1 ≤ [(⟨.addobj, "a", none, none⟩ : Token), ⟨.lsobjs, "", none, none⟩].length ∧
    hauptUmweltAbbruch.abbruch (1 + 1) = true ∧ hauptUmweltAbbruch.abbruch 0 = false ∧
    ["/dev/ram15"] ≠ [] ∧ mountShfs defs₀ hauptUmweltAbbruch.mount platte₀ = some vol₀ ∧
    hauptLauf defs₀ hash₀ hauptUmweltAbbruch
        ⟨[⟨.addobj, "a", none, none⟩, ⟨.lsobjs, "", none, none⟩], ["/dev/ram15"], 0, false⟩
        platte₀ =
      match umountShfs hauptUmweltAbbruch.umount (tokenSchleife defs₀ hash₀ hauptUmweltAbbruch 0
          ([⟨.addobj, "a", none, none⟩, ⟨.lsobjs, "", none, none⟩].take 1) platte₀ vol₀ 0).vol
        (tokenSchleife defs₀ hash₀ hauptUmweltAbbruch 0
          ([⟨.addobj, "a", none, none⟩, ⟨.lsobjs, "", none, none⟩].take 1) platte₀ vol₀ 0).platte with
      | none => ⟨exitFailure, none, (tokenSchleife defs₀ hash₀ hauptUmweltAbbruch 0
          ([⟨.addobj, "a", none, none⟩, ⟨.lsobjs, "", none, none⟩].take 1) platte₀ vol₀ 0).ausgaben⟩
      | some p' => ⟨-2, some p', (tokenSchleife defs₀ hash₀ hauptUmweltAbbruch 0
          ([⟨.addobj, "a", none, none⟩, ⟨.lsobjs, "", none, none⟩].take 1) platte₀ vol₀ 0).ausgaben⟩ :=
  ⟨by decide, rfl, rfl, by decide, mountShfs_platte₀,
    hauptLauf_abbruch defs₀ hash₀ hauptUmweltAbbruch
      ⟨[⟨.addobj, "a", none, none⟩, ⟨.lsobjs, "", none, none⟩], ["/dev/ram15"], 0, false⟩
      (k := 1) (by decide) rfl rfl (by decide) mountShfs_platte₀⟩

/-- `shfs_admin -a a /dev/ram15` on the example volume, then `shfs_admin -l /dev/ram15`. -/
theorem prozesse_platteInv_platte₀ :
    ∃ p, prozesse defs₀ hash₀ platte₀ [([⟨'a', "a"⟩], ["/dev/ram15"], hauptUmwelt₀),
        ([⟨'l', ""⟩], ["/dev/ram15"], hauptUmwelt₀)] = some p ∧
      PlatteInv defs₀ p ∧ ∀ cs vs, loadVolCconf p.hdrCommon = some (cs, vs) →
        0 < (geoVon defs₀ p).htableLen →
        ∀ i < (geoVon defs₀ p).htableNbEntries, ∀ j < (geoVon defs₀ p).htableNbEntries,
          (p.slot defs₀ i).hash ≠ 0 → (p.slot defs₀ i).hash = (p.slot defs₀ j).hash → i = j := by
  obtain ⟨p, h⟩ : ∃ p, prozesse defs₀ hash₀ platte₀ [([⟨'a', "a"⟩], ["/dev/ram15"], hauptUmwelt₀),
      ([⟨'l', ""⟩], ["/dev/ram15"], hauptUmwelt₀)] = some p := ⟨_, rfl⟩
  exact ⟨p, h, prozesse_platteInv defs₀ hash₀ frisch_platte₀ _ h⟩

end Minicache.Shfs
