/-
  File:      Minicache/Shfs/Argumente.lean
  Subject:   `parse_args` of shfs_admin.c over the options `getopt_long` delivers, and the
             argument phase of `main`.

  `getopt_long` itself is not modelled: what it returns is the input, one `GetoptErgebnis` per
  option in argv order (the option character, `'?'` for one it does not recognise, and
  `optarg`), and the operands after the options are the device paths.

  * `argsAddToken` -- `args_add_token` with the stores of its caller, over the token list and
    `ctoken` as the index of the token it points to; `ctoken` stays on the last token
    (`Schwanz`);
  * `parseSchritt`, `parseSchleife`, `parseArgs` -- one pass of the `while (1)` loop, the loop,
    the function; `mainArgumente` -- `main` up to the end of argument parsing;
  * `sollTokens` -- the tokens the spec asks for, from its words;
  * `parseSchritt_ok`, `parseSchleife_ok` -- what one pass and the loop do to the tokens;
  * `parseArgs_tokens` -- when `parse_args` returns 0, its tokens are `sollTokens`;
    `parseArgs_einval` -- a `-m` or `-n` after no ADDOBJ token returns `-EINVAL`;
    `unbekannt_beendet` -- an option `getopt_long` does not recognise ends the process with
    `EXIT_SUCCESS`; **`parseArgs_verhalten`** -- the three together.

  NOT here: the usage and version texts, and `die()` when `calloc` or `strdup` fails.
-/
import Mathlib.Data.List.Basic
import Minicache.Shfs.Format

namespace Minicache.Shfs

/-! ## 1. The model -/

/-- `D_MAX` of tools_common.h. -/
def dMax : Nat := 2

/-- `EXIT_SUCCESS`. -/
def exitSuccess : Nat := 0

/-- `EXIT_FAILURE`. -/
def exitFailure : Nat := 1

/-- The message of a `-m` with no ADDOBJ token. -/
def meldungMime : String := "Please set mime after an add-obj token\n"

/-- The message of a `-n` with no ADDOBJ token. -/
def meldungName : String := "Please set name after an add-obj token\n"

/-- The message when no device follows the options. -/
def meldungKeinGeraet : String := "Path to volume member device(s) not specified\n"

/-- One result of `getopt_long`: the option character (`'?'` for an option it does not recognise
    or one missing its argument) and `optarg`. -/
structure GetoptErgebnis where
  opt : Char
  optarg : String
  deriving DecidableEq, Repr

/-- `struct args` (shfs_admin.h, not in src/) with the globals `verbosity` and `force`: the token
    list, and the device paths `argv[optind..]`, `nb_devs` of them. -/
structure Args where
  tokens : List Token
  devpath : List String
  verbosity : Nat
  force : Bool
  deriving DecidableEq, Repr

/-- How `parse_args` ends: `return 0`; `return -EINVAL` after the message it prints (none for an
    option it has no case for); `exit(code)` from inside it. -/
inductive ParseErgebnis
  | ok (args : Args)
  | einval (meldung : Option String)
  | beendet (code : Nat)
  deriving DecidableEq, Repr

/-- What the loop of `parse_args` changes: `args->tokens` in list order, `ctoken` as the index of
    the token it points to (`NULL` is `none`), `verbosity` and `force`. -/
structure ParseZustand where
  tokens : List Token
  ctoken : Option Nat
  verbosity : Nat
  force : Bool
  deriving DecidableEq, Repr

/-- `ctoken = args_add_token(ctoken, args)` and the stores into the new zeroed token, `t`: it is
    linked behind `ltoken` (tokens after that one would no longer be reachable), or becomes the
    list when `ltoken` is `NULL`. -/
def argsAddToken (z : ParseZustand) (t : Token) : ParseZustand :=
  match z.ctoken with
  | some i => { z with tokens := z.tokens.take (i + 1) ++ [t], ctoken := some (i + 1) }
  | none => { z with tokens := [t], ctoken := some 0 }

/-- The cases of the switch that add a token: its action, and `optarg` as its `path` for `-a`,
    `-r`, `-c`, `-d`; the other three leave `path` `NULL`, here the empty string, which their
    actions do not read. -/
def neuesToken (opt : Char) (optarg : String) : Option Token :=
  match opt with
  | 'a' => some ⟨.addobj, optarg, none, none⟩
  | 'r' => some ⟨.rmobj, optarg, none, none⟩
  | 'c' => some ⟨.catobj, optarg, none, none⟩
  | 'd' => some ⟨.setdefobj, optarg, none, none⟩
  | 'C' => some ⟨.cleardefobj, "", none, none⟩
  | 'l' => some ⟨.lsobjs, "", none, none⟩
  | 'i' => some ⟨.showinfo, "", none, none⟩
  | _ => none

/-- The cases `-m` and `-n`: `parse_args_setval_str` into the field `setze` stores, of the token
    `ctoken` points to if it is an ADDOBJ token; else `meldung` and `-EINVAL`. (`ctoken` always
    points into the list; the last case is not reached.) -/
def optSetzen (z : ParseZustand) (meldung : String) (setze : Token → Token) :
    Except ParseErgebnis ParseZustand :=
  match z.ctoken with
  | none => .error (.einval (some meldung))
  | some i =>
    match z.tokens[i]? with
    | some t =>
      if t.action = .addobj then .ok { z with tokens := z.tokens.set i (setze t) }
      else .error (.einval (some meldung))
    | none => .error (.einval (some meldung))

/-- One pass of the `while (1)` loop of `parse_args`, on the option `e`. -/
def parseSchritt (z : ParseZustand) (e : GetoptErgebnis) : Except ParseErgebnis ParseZustand :=
  match e.opt with
  | 'h' | '?' | 'V' => .error (.beendet exitSuccess)
  | 'v' => .ok (if z.verbosity < dMax then { z with verbosity := z.verbosity + 1 } else z)
  | 'f' => .ok { z with force := true }
  | 'm' => optSetzen z meldungMime fun t => { t with optstr0 := some e.optarg }
  | 'n' => optSetzen z meldungName fun t => { t with optstr1 := some e.optarg }
  | c =>
    match neuesToken c e.optarg with
    | some t => .ok (argsAddToken z t)
    | none => .error (.einval none)

/-- The loop of `parse_args` over the options, until one of them ends it. -/
def parseSchleife : List GetoptErgebnis → ParseZustand → Except ParseErgebnis ParseZustand
  | [], z => .ok z
  | e :: es, z =>
    match parseSchritt z e with
    | .ok z => parseSchleife es z
    | .error r => .error r

/-- `parse_args` on the options `es` and the operands `devs`, with the globals `verbosity` and
    `force` as they are: the loop from `tokens = ctoken = NULL`, then the check that a device was
    given (its last loop, over the tokens, checks nothing). -/
def parseArgs (es : List GetoptErgebnis) (devs : List String) (verbosity : Nat) (force : Bool) :
    ParseErgebnis :=
  match parseSchleife es ⟨[], none, verbosity, force⟩ with
  | .error r => r
  | .ok z =>
    if devs = [] then .einval (some meldungKeinGeraet)
    else .ok ⟨z.tokens, devs, z.verbosity, z.force⟩

/-- `main` to the end of argument parsing, with `verbosity` and `force` at 0: the arguments it
    goes on with, or the code the process exits with (`exit(EXIT_FAILURE)` when `parse_args`
    returns an error). -/
def mainArgumente (es : List GetoptErgebnis) (devs : List String) : Except Nat Args :=
  match parseArgs es devs 0 false with
  | .ok a => .ok a
  | .einval _ => .error exitFailure
  | .beendet c => .error c

/-! ## 2. The token list of the spec -/

/-- The options before the next action option. -/
def bisAktion (es : List GetoptErgebnis) : List GetoptErgebnis :=
  es.takeWhile fun e => (neuesToken e.opt e.optarg).isNone

/-- The argument of the last option `c` among `es`. -/
def letztesArg (c : Char) : List GetoptErgebnis → Option String
  | [] => none
  | e :: es => (letztesArg c es).or (if e.opt = c then some e.optarg else none)

/-- The tokens the spec asks of `parse_args` for the options `es`: one per action option, in argv
    order, with its action and argument, and as MIME type and name the arguments of the last
    `-m` and `-n` after it and before the next action option (which only an ADDOBJ token can
    have, `parseArgs_einval`). -/
def sollTokens : List GetoptErgebnis → List Token
  | [] => []
  | e :: es =>
    match neuesToken e.opt e.optarg with
    | some t =>
      { t with optstr0 := letztesArg 'm' (bisAktion es), optstr1 := letztesArg 'n' (bisAktion es) } ::
        sollTokens es
    | none => sollTokens es

/-! ## 3. What the loop does to the tokens -/

/-- `ctoken` points to the last token, and is `NULL` on the empty list. -/
def Schwanz (z : ParseZustand) : Prop := ∀ i, z.ctoken = some i ↔ i + 1 = z.tokens.length

/-- The MIME type and name the options `seg` give the token before them. -/
def mitSegment (seg : List GetoptErgebnis) (t : Token) : Token :=
  { t with optstr0 := (letztesArg 'm' seg).or t.optstr0,
           optstr1 := (letztesArg 'n' seg).or t.optstr1 }

theorem mitSegment_nil (t : Token) : mitSegment [] t = t := rfl

theorem mitSegment_cons (e : GetoptErgebnis) (seg : List GetoptErgebnis) :
    mitSegment (e :: seg) = mitSegment seg ∘ mitSegment [e] := funext fun t => by
  simp only [mitSegment, letztesArg, Option.or_assoc, Option.none_or, Function.comp]

theorem modifyLast_eq_self {f : Token → Token} (hf : ∀ t, f t = t) (ts : List Token) :
    ts.modifyLast f = ts := by
  rcases List.eq_nil_or_concat ts with rfl | ⟨pre, t, rfl⟩
  · rfl
  · rw [List.concat_eq_append, List.modifyLast_append_one, hf]

theorem modifyLast_modifyLast (f g : Token → Token) (ts : List Token) :
    (ts.modifyLast f).modifyLast g = ts.modifyLast (g ∘ f) := by
  rcases List.eq_nil_or_concat ts with rfl | ⟨pre, t, rfl⟩
  · rfl
  · simp only [List.concat_eq_append, List.modifyLast_append_one, Function.comp]

theorem neuesToken_some {c : Char} {a : String} {t : Token} (h : neuesToken c a = some t) :
    t.optstr0 = none ∧ t.optstr1 = none := by
  unfold neuesToken at h
  split at h <;> cases h <;> exact ⟨rfl, rfl⟩

theorem Schwanz.letztes {z : ParseZustand} (hz : Schwanz z) {i : Nat} {t : Token}
    (hi : z.ctoken = some i) (ht : z.tokens[i]? = some t) :
    ∃ pre, z.tokens = pre ++ [t] ∧ pre.length = i := by
  have hl := (hz i).mp hi
  refine ⟨z.tokens.take i, ?_, by rw [List.length_take]; omega⟩
  conv_lhs => rw [← List.take_append_drop i z.tokens]
  rw [List.drop_eq_getElem_cons (by omega), List.getElem?_eq_getElem (by omega)] at *
  rw [Option.some.inj ht, List.drop_eq_nil_of_le (by omega)]

theorem argsAddToken_spec {z : ParseZustand} (hz : Schwanz z) (t : Token) :
    Schwanz (argsAddToken z t) ∧ (argsAddToken z t).tokens = z.tokens ++ [t] := by
  unfold argsAddToken
  cases hc : z.ctoken with
  | none =>
    dsimp only
    have h0 : z.tokens = [] := List.eq_nil_of_length_eq_zero (by
      by_contra hne
      have := (hz (z.tokens.length - 1)).mpr (by omega)
      rw [hc] at this; cases this)
    refine ⟨fun i => ?_, by rw [h0]; rfl⟩
    simp only [List.length_singleton, Option.some.injEq]; omega
  | some i =>
    dsimp only
    have hi := (hz i).mp hc
    refine ⟨fun j => ?_, by rw [List.take_of_length_le (by omega)]⟩
    simp only [List.length_append, List.length_take, List.length_singleton, Option.some.injEq]
    omega

theorem optSetzen_ok {z z' : ParseZustand} {meldung : String} {setze : Token → Token}
    (hz : Schwanz z) (h : optSetzen z meldung setze = .ok z') :
    Schwanz z' ∧ z'.tokens = z.tokens.modifyLast setze := by
  unfold optSetzen at h
  split at h
  · cases h
  · rename_i i hi
    split at h
    · rename_i t ht
      split_ifs at h
      cases h
      obtain ⟨pre, hpre, hlen⟩ := hz.letztes hi ht
      refine ⟨fun j => by rw [List.length_set]; exact hz j, ?_⟩
      rw [hpre, List.set_append_right _ _ (by omega), hlen, Nat.sub_self, List.modifyLast_append_one]
      rfl
    · cases h

/-- **What one pass does to the tokens**: an action option links its token behind the last one,
    every other option that lets the loop go on gives the last token what its `-m` or `-n` sets,
    and `ctoken` stays on the last token. -/
theorem parseSchritt_ok {z z' : ParseZustand} {e : GetoptErgebnis} (hz : Schwanz z)
    (h : parseSchritt z e = .ok z') :
    Schwanz z' ∧ z'.tokens = match neuesToken e.opt e.optarg with
      | some t => z.tokens ++ [t]
      | none => z.tokens.modifyLast (mitSegment [e]) := by
  have hid : ∀ c, e.opt = c → c ≠ 'm' → c ≠ 'n' → z.tokens.modifyLast (mitSegment [e]) = z.tokens :=
    fun c hc hm hn => modifyLast_eq_self (fun t => by simp [mitSegment, letztesArg, hc, hm, hn]) _
  unfold parseSchritt at h
  split at h
  any_goals (cases h; done)
  · rename_i hv
    cases h
    refine ⟨by split <;> exact hz, ?_⟩
    rw [hv, show neuesToken 'v' e.optarg = none from rfl, hid 'v' hv (by decide) (by decide)]
    split <;> rfl
  · rename_i hf
    cases h
    rw [hf, show neuesToken 'f' e.optarg = none from rfl, hid 'f' hf (by decide) (by decide)]
    exact ⟨hz, rfl⟩
  · rename_i hm
    refine (optSetzen_ok hz h).imp_right fun ht => ?_
    rw [hm, show neuesToken 'm' e.optarg = none from rfl, ht]
    exact congrArg z.tokens.modifyLast (funext fun t => by simp [mitSegment, letztesArg, hm])
  · rename_i hn
    refine (optSetzen_ok hz h).imp_right fun ht => ?_
    rw [hn, show neuesToken 'n' e.optarg = none from rfl, ht]
    exact congrArg z.tokens.modifyLast (funext fun t => by simp [mitSegment, letztesArg, hn])
  · split at h
    · cases h
      exact argsAddToken_spec hz _
    · cases h

theorem parseSchritt_abbruch {z : ParseZustand} {e : GetoptErgebnis} {r : ParseErgebnis}
    (h : parseSchritt z e = .error r) (a : Args) : r ≠ .ok a := by
  unfold parseSchritt optSetzen at h
  split at h <;> (try split at h) <;> (try split at h) <;> (try split at h) <;> cases h <;> nofun

/-- **The loop on the tokens**: from a state whose `ctoken` is on its last token, the options
    before the first action option set the last token's MIME type and name, and every action
    option adds its token of `sollTokens`. -/
theorem parseSchleife_ok : ∀ {es : List GetoptErgebnis} {z z' : ParseZustand}, Schwanz z →
    parseSchleife es z = .ok z' →
      Schwanz z' ∧ z'.tokens = z.tokens.modifyLast (mitSegment (bisAktion es)) ++ sollTokens es
  | [], z, _, hz, h => by
    cases h
    exact ⟨hz, by
      rw [show bisAktion [] = [] from rfl, modifyLast_eq_self mitSegment_nil]
      exact (List.append_nil _).symm⟩
  | e :: es, z, z', hz, h => by
    simp only [parseSchleife] at h
    split at h
    · rename_i z₁ h₁
      obtain ⟨hz₁, ht₁⟩ := parseSchritt_ok hz h₁
      obtain ⟨hz', ht'⟩ := parseSchleife_ok hz₁ h
      refine ⟨hz', ?_⟩
      rw [ht', ht₁]
      cases hn : neuesToken e.opt e.optarg with
      | some t =>
        obtain ⟨h0, h1⟩ := neuesToken_some hn
        simp only [bisAktion, sollTokens, List.takeWhile_cons, hn, Option.isNone_some,
          Bool.false_eq_true, if_false, List.modifyLast_append_one, List.append_assoc,
          List.singleton_append]
        rw [modifyLast_eq_self mitSegment_nil]
        simp [mitSegment, h0, h1]
      | none =>
        simp only [bisAktion, sollTokens, List.takeWhile_cons, hn, Option.isNone_none, if_true,
          modifyLast_modifyLast]
        rw [mitSegment_cons e (List.takeWhile _ es)]
    · cases h

theorem parseSchleife_abbruch : ∀ {es : List GetoptErgebnis} {z : ParseZustand} {r : ParseErgebnis},
    parseSchleife es z = .error r → ∀ a, r ≠ .ok a
  | [], _, _, h => by cases h
  | e :: es, z, r, h => by
    simp only [parseSchleife] at h
    split at h
    · exact parseSchleife_abbruch h
    · rename_i h'
      cases h
      exact parseSchritt_abbruch h'

theorem parseSchleife_append : ∀ {xs : List GetoptErgebnis} {z z₁ : ParseZustand}
    (ys : List GetoptErgebnis), parseSchleife xs z = .ok z₁ →
      parseSchleife (xs ++ ys) z = parseSchleife ys z₁
  | [], _, _, _, h => by cases h; rfl
  | e :: xs, z, z₁, ys, h => by
    simp only [parseSchleife, List.cons_append] at h ⊢
    split at h
    · exact parseSchleife_append ys h
    · cases h

theorem optSetzen_einval {z : ParseZustand} {meldung : String} {setze : Token → Token}
    (hz : Schwanz z) (hkein : z.tokens.getLast?.map Token.action ≠ some .addobj) :
    optSetzen z meldung setze = .error (.einval (some meldung)) := by
  unfold optSetzen
  split
  · rfl
  · rename_i i hi
    split
    · rename_i t ht
      obtain ⟨pre, hpre, -⟩ := hz.letztes hi ht
      rw [if_neg fun ha => hkein (by rw [hpre, List.getLast?_append_of_ne_nil _ (List.cons_ne_nil _ _)]; simp [ha])]
    · rfl

/-- The loop from `tokens = ctoken = NULL` has built the tokens of the spec so far. -/
theorem parseSchleife_start {es : List GetoptErgebnis} {v : Nat} {f : Bool} {z : ParseZustand}
    (h : parseSchleife es ⟨[], none, v, f⟩ = .ok z) : Schwanz z ∧ z.tokens = sollTokens es :=
  parseSchleife_ok (fun i => by simp [Schwanz]) h

/-- **When `parse_args` returns 0**, its tokens are those of the spec, and the devices are the
    operands, at least one. -/
theorem parseArgs_tokens {es : List GetoptErgebnis} {devs : List String} {v : Nat} {f : Bool}
    {a : Args} (h : parseArgs es devs v f = .ok a) :
    a.tokens = sollTokens es ∧ a.devpath = devs ∧ devs ≠ [] := by
  unfold parseArgs at h
  split at h
  · rename_i hr
    exact absurd h (parseSchleife_abbruch hr a)
  · rename_i z hz
    split_ifs at h with hd
    cases h
    exact ⟨(parseSchleife_start hz).2, rfl, hd⟩

/-- **A `-m` or `-n` after no ADDOBJ token** makes `parse_args` return `-EINVAL` with its message,
    once the loop reaches it. -/
theorem parseArgs_einval {pre post : List GetoptErgebnis} {e : GetoptErgebnis}
    {devs : List String} {v : Nat} {f : Bool} {z : ParseZustand}
    (hpre : parseSchleife pre ⟨[], none, v, f⟩ = .ok z)
    (hkein : (sollTokens pre).getLast?.map Token.action ≠ some .addobj) :
    (e.opt = 'm' → parseArgs (pre ++ e :: post) devs v f = .einval (some meldungMime)) ∧
    (e.opt = 'n' → parseArgs (pre ++ e :: post) devs v f = .einval (some meldungName)) := by
  obtain ⟨hz, ht⟩ := parseSchleife_start hpre
  rw [← ht] at hkein
  constructor <;> intro hm <;>
    simp only [parseArgs, parseSchleife_append _ hpre, parseSchleife, parseSchritt, hm,
      optSetzen_einval hz hkein]

/-- **An option `getopt_long` does not recognise**, once the loop reaches it, ends the process
    with `EXIT_SUCCESS`: its `'?'` shares the case of `-h`. -/
theorem unbekannt_beendet {pre post : List GetoptErgebnis} {a : String} {devs : List String}
    {z : ParseZustand} (hpre : parseSchleife pre ⟨[], none, 0, false⟩ = .ok z) :
    mainArgumente (pre ++ ⟨'?', a⟩ :: post) devs = .error exitSuccess := by
  unfold mainArgumente parseArgs
  rw [parseSchleife_append _ hpre]
  rfl

/-- **`parse_args`.** When it returns 0, its tokens are those the spec asks for; a `-m` or `-n`
    after no ADDOBJ token returns `-EINVAL`; but an option `getopt_long` does not recognise ends
    the process with `EXIT_SUCCESS`. -/
theorem parseArgs_verhalten :
    (∀ es devs v f a, parseArgs es devs v f = .ok a → a.tokens = sollTokens es) ∧
    (∀ pre e post devs v f z, parseSchleife pre ⟨[], none, v, f⟩ = .ok z →
      (sollTokens pre).getLast?.map Token.action ≠ some .addobj →
      (e.opt = 'm' → parseArgs (pre ++ e :: post) devs v f = .einval (some meldungMime)) ∧
      (e.opt = 'n' → parseArgs (pre ++ e :: post) devs v f = .einval (some meldungName))) ∧
    (∀ pre post a devs z, parseSchleife pre ⟨[], none, 0, false⟩ = .ok z →
      mainArgumente (pre ++ ⟨'?', a⟩ :: post) devs = .error exitSuccess) :=
  ⟨fun _ _ _ _ _ h => (parseArgs_tokens h).1, fun _ _ _ _ _ _ _ hpre hkein => parseArgs_einval hpre hkein,
    fun _ _ _ _ _ hpre => unbekannt_beendet hpre⟩

/-- `shfs_admin -x /dev/ram15`: `getopt_long` answers `'?'` for `-x`. -/
theorem parseArgs_verhalten_unbekannt :
    mainArgumente [⟨'?', ""⟩] ["/dev/ram15"] = .error exitSuccess :=
  parseArgs_verhalten.2.2 [] [] "" ["/dev/ram15"] _ rfl

end Minicache.Shfs
