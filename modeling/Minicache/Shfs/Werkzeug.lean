/-
  File:      Minicache/Shfs/Werkzeug.lean
  Subject:   Processes of shfs_admin as runs of the object store: `main` with its command line,
             one process after another, from a freshly made volume.

  `speicher_verfeinerung` (Speicher.lean) speaks of runs of the state machine none of whose
  steps is `Riskant`. Here that condition comes from what a process is given: its command line
  and its world. An add is `Riskant` only when its second pass over the file fails, a remove
  only when its path is the all-zero digest; a process that meets neither is a run of the store
  over the tokens its loop ran, each with the code the process reports for it.

  * `SitzungInv.nicht_riskant` -- on a mounted volume no `Sicher` event is `Riskant`;
  * `lauf_spurOhneRisiko` -- a run of `Sicher` events is a run without a `Riskant` step, with
    the codes of `lauf`;
  * `hauptLauf_faelle` -- a process ends on the members it started on with no output, or after
    its mount, its loop and its unmount;
  * `hauptLauf_speicher`, `haupt_speicher` -- a process from a state reached without a `Riskant`
    step is a run of the store over its tokens and reported codes, and ends in such a state;
  * **`prozesse_speicher`** -- processes one after another from a freshly made volume are a run
    of the store from the empty map.

  NOT here: a process that dies in the write-back of `umount_shfs`, after which `prozesse` gives
  no members; and the order in which `main` prints the codes it reports.
-/
import Minicache.Shfs.Speicher
import Minicache.Shfs.Haupt

namespace Minicache.Shfs

/-! ## 1. Events that are not `Riskant` -/

/-- A world of `actn_addfile` in which its second pass over the file cannot fail: the `lseek`
    back to the start, every `read` and `sync_write_chunk` succeed, and `cancel` is not seen
    set. -/
structure AddfileUmwelt.KopieGlatt (u : AddfileUmwelt) : Prop where
  lseek₂ : u.lseek₂ = true
  kopie : ∀ k, u.lies₂ k = true ∧ u.schreib k = true ∧ u.abbruch₂ k = false

/-- The events that are never `Riskant` on a volume whose digests are `hlen` bytes long: an add
    whose second pass cannot fail, a remove whose path is not the all-zero digest, and every
    other event. -/
def Ereignis.Sicher (hlen : Nat) : Ereignis → Prop
  | .addfile _ u => u.KopieGlatt
  | .rmfile j => hashParse j.path hlen ≠ some 0
  | _ => True

variable (D : ShfsDefs) (H : List UInt8 → Nat)

/-- **Only a failed second pass makes an add fail after its commit.** On a mounted volume an add
    whose copy cannot fail returns 0 once it has committed, so no `Sicher` event is `Riskant`. -/
theorem SitzungInv.nicht_riskant {p₀ p : Platte} {v : Vol} (hi : SitzungInv D p₀ p v)
    {e : Ereignis} (he : e.Sicher v.hlen) : ¬ Riskant D H p v e := by
  cases e with
  | addfile j u =>
    have hu : u.KopieGlatt := he
    obtain ⟨hcs, hvol, -⟩ := hi.addfile_bereit
    rintro ⟨hr, hbt⟩
    rcases hA : actnAddfile D H u j p v with ⟨r, p', v'⟩
    rw [hA] at hr hbt
    rcases actnAddfile_faelle D H hA with ⟨-, -, rfl⟩ | ⟨f, buf, d, b, bt, hf, hc0, hcv, hdg, -⟩
    · exact hbt rfl
    have hraum : v.cchk f + v.csize f ≤ v.volsize + 1 := hvol ▸ (shfsAlistFindFree_spec hc0).2.1
    obtain ⟨p'', hk⟩ : ∃ p'', kopierSchleife u v.volsize f v.chunksize (v.cchk f) f.length
        f.length 0 0 buf p = .ok p'' :=
      kopierSchleife_ok hcs _ _ _ _ _ _
        ((divRoundUp_le_iff hcs).mpr (Nat.le_mul_of_pos_right _ hcs))
        fun k _ hk => ⟨(hu.kopie k).1, (hu.kopie k).2.1, (hu.kopie k).2.2, by
          unfold Vol.csize at hraum; omega⟩
    rw [actnAddfile_eq_ok D H hf ⟨hc0, hcv⟩ hdg hu.lseek₂ hk] at hA
    cases hA
    exact lt_irrefl 0 hr
  | rmfile j => exact he
  | _ => exact id

/-- **A run of `Sicher` events has no `Riskant` step**; its codes are those `lauf` gives. -/
theorem lauf_spurOhneRisiko : ∀ {es : List Ereignis} {s s' : System} {rs : List (Int × Ausgabe)},
    SysInv D s → (∀ e ∈ es, e.Sicher s.platte.hdrConfig.hlen) → lauf D H s es = some (s', rs) →
      SpurOhneRisiko D H s (es.zip (rs.map (·.1))) s'
  | [], _, _, _, _, _, h => by
    simp only [lauf, Option.some.injEq, Prod.mk.injEq] at h
    obtain ⟨rfl, rfl⟩ := h
    exact .nil
  | e :: es, s, _, _, hs, he, h => by
    simp only [lauf, Option.bind_eq_some, Option.map_eq_some'] at h
    obtain ⟨⟨s₁, r⟩, h₁, ⟨s₂, rs₂⟩, h₂, hr⟩ := h
    cases hr
    have hl := schritt_hdrConfig D H hs h₁
    refine .cons h₁ (fun v hv => ?_) (lauf_spurOhneRisiko (hs.nachSchritt D H h₁)
      (fun e' he' => hl ▸ he e' (.tail _ he')) h₂)
    obtain ⟨p, vol⟩ := s
    cases hv
    obtain ⟨p₀, hi⟩ := hs
    exact hi.nicht_riskant D H (hi.hlen_eq ▸ he e (.head _))

/-! ## 2. Runs without a `Riskant` step, and runs of the store -/

section Spur

variable {D H}

theorem SpurOhneRisiko.erreichbar {s s' : System} {t : List (Ereignis × Int)}
    (ht : SpurOhneRisiko D H s t s') :
    ErreichbarOhneRisiko D H s → ErreichbarOhneRisiko D H s' := by
  induction ht with
  | nil => exact id
  | cons hs hn _ ih => exact fun h => ih (.schritt h hs hn)

theorem SpurOhneRisiko.hdrConfig {s s' : System} {t : List (Ereignis × Int)}
    (ht : SpurOhneRisiko D H s t s') : SysInv D s → s'.platte.hdrConfig = s.platte.hdrConfig := by
  induction ht with
  | nil => exact fun _ => rfl
  | cons hs _ _ ih => exact fun h => (ih (h.nachSchritt D H hs)).trans (schritt_hdrConfig D H h hs)

/-- A step of an event that cannot change the store leaves it as it is. -/
theorem SpeicherSchritt.eq_of_not_aendert {hlen : Nat} {m m' : Speicher} {e : Ereignis} {r : Int}
    (h : SpeicherSchritt hlen m e r m') (he : ¬ e.aendert) : m' = m := by
  cases h with
  | hinzu => exact absurd trivial he
  | entfernen => exact absurd trivial he
  | bleibt => rfl

theorem SpeicherLauf.append {hlen : Nat} {m m' m'' : Speicher} {t t' : List (Ereignis × Int)}
    (h : SpeicherLauf hlen m t m') (h' : SpeicherLauf hlen m' t' m'') :
    SpeicherLauf hlen m (t ++ t') m'' := by
  induction h with
  | nil => exact h'
  | cons hs _ ih => exact .cons hs (ih h')

end Spur

/-! ## 3. A process -/

section Prozess

variable (w : HauptUmwelt) (args : Args)

/-- The event of a token is `Sicher` when the world's adds cannot fail in their second pass and
    the token, if a remove, does not name the all-zero digest. -/
theorem ereignisVon_sicher {hlen : Nat} (hw : ∀ i, (w.addfile i).KopieGlatt) {t : Token}
    (hr : t.action = .rmobj → hashParse t.path hlen ≠ some 0) (i : Nat) :
    (ereignisVon w i t).Sicher hlen := by
  unfold ereignisVon
  cases ha : t.action with
  | addobj => exact hw i
  | rmobj => exact hr ha
  | _ => trivial

theorem tokenEreignisse_sicher {hlen : Nat} (hw : ∀ i, (w.addfile i).KopieGlatt) :
    ∀ {ts : List Token} {i : Nat}, (∀ t ∈ ts, t.action = .rmobj → hashParse t.path hlen ≠ some 0) →
      ∀ e ∈ tokenEreignisse w i ts, e.Sicher hlen
  | [], _, _, _, he => absurd he (List.not_mem_nil _)
  | t :: ts, i, hr, e, he => by
    simp only [tokenEreignisse] at he
    split at he
    · exact absurd he (List.not_mem_nil _)
    rcases List.mem_cons.mp he with rfl | he
    · exact ereignisVon_sicher w hw (hr t (.head _)) i
    · exact tokenEreignisse_sicher hw (fun t' ht' => hr t' (.tail _ ht')) e he

/-- **How a process ends**, whatever its exit code: on the members it started on with no
    output, or after `mount_shfs`, the loop over its tokens and `umount_shfs`. -/
theorem hauptLauf_faelle (p : Platte) :
    ((hauptLauf D H w args p).platte = some p ∧ (hauptLauf D H w args p).ausgaben = []) ∨
    ∃ v, mountShfs D w.mount p = some v ∧
      (hauptLauf D H w args p).platte = umountShfs w.umount
        (tokenSchleife D H w 0 args.tokens p v 0).vol
        (tokenSchleife D H w 0 args.tokens p v 0).platte ∧
      (hauptLauf D H w args p).ausgaben = (tokenSchleife D H w 0 args.tokens p v 0).ausgaben := by
  unfold hauptLauf
  by_cases h0 : w.abbruch 0 = true
  · exact .inl (by simp only [h0, if_true, and_self])
  by_cases hd : args.devpath = []
  · exact .inl (by simp only [h0, hd, Bool.false_eq_true, if_false, if_true, and_self])
  simp only [h0, hd, Bool.false_eq_true, if_false]
  cases hm : mountShfs D w.mount p with
  | none => exact .inl ⟨rfl, rfl⟩
  | some v =>
    dsimp only
    refine .inr ⟨v, rfl, ?_⟩
    cases umountShfs w.umount (tokenSchleife D H w 0 args.tokens p v 0).vol
      (tokenSchleife D H w 0 args.tokens p v 0).platte with
    | none => exact ⟨rfl, rfl⟩
    | some p' => split_ifs <;> exact ⟨rfl, rfl⟩

/-- **A process is a run of the store.** From a state reached without a `Riskant` step, a
    process after its argument phase whose adds cannot fail in their second pass and none of
    whose removes names the all-zero digest, and that does not die in the write-back, ends in a
    state reached without a `Riskant` step, with the same configuration header; and the store on
    the members runs, from what it was, over the tokens its loop ran with the codes it reports
    for them. -/
theorem hauptLauf_speicher {p p' : Platte} (h : ErreichbarOhneRisiko D H ⟨p, none⟩)
    (hw : ∀ i, (w.addfile i).KopieGlatt)
    (hr : ∀ t ∈ args.tokens, t.action = .rmobj → hashParse t.path p.hdrConfig.hlen ≠ some 0)
    (hp : (hauptLauf D H w args p).platte = some p') :
    ErreichbarOhneRisiko D H ⟨p', none⟩ ∧ p'.hdrConfig = p.hdrConfig ∧
      SpeicherLauf p.hdrConfig.hlen (SysObjekte D ⟨p, none⟩)
        ((tokenEreignisse w 0 args.tokens).zip ((hauptLauf D H w args p).ausgaben.map (·.1)))
        (SysObjekte D ⟨p', none⟩) := by
  rcases hauptLauf_faelle D H w args p with ⟨hpl, haus⟩ | ⟨v, hm, hpl, haus⟩
  · rw [hp, Option.some.injEq] at hpl
    subst hpl
    rw [haus, List.map_nil, List.zip_nil_right]
    exact ⟨h, rfl, .nil⟩
  rw [haus]
  rw [hp] at hpl
  have hm₁ : schritt D H ⟨p, none⟩ (.mount w.mount) = some (⟨p, some v⟩, 0, .keine) := by
    simp only [schritt, hm]
  have h₁ : ErreichbarOhneRisiko D H ⟨p, some v⟩ := .schritt h hm₁ fun _ hv => nomatch hv
  have hsi₁ := erreichbar_sysInv D H h₁.erreichbar
  have ht := lauf_spurOhneRisiko D H hsi₁ (tokenEreignisse_sicher w hw hr)
    (tokenSchleife_lauf D H w args.tokens 0 p v 0)
  have h₂ := ht.erreichbar h₁
  have hu : schritt D H ⟨(tokenSchleife D H w 0 args.tokens p v 0).platte,
      some (tokenSchleife D H w 0 args.tokens p v 0).vol⟩ (.umount w.umount) =
      some (⟨p', none⟩, 0, .keine) := by
    simp only [schritt, ← hpl]
    rfl
  have hS₁ := (SysObjekte.nachSchritt D H h (fun _ hv => nomatch hv) hm₁).eq_of_not_aendert id
  have hS₃ := (SysObjekte.nachSchritt D H h₂ (fun _ _ => id) hu).eq_of_not_aendert id
  refine ⟨.schritt h₂ hu fun _ _ => id,
    (schritt_hdrConfig D H (erreichbar_sysInv D H h₂.erreichbar) hu).trans (ht.hdrConfig hsi₁), ?_⟩
  rw [hS₃, ← hS₁]
  exact ht.speicherLauf D H h₁

end Prozess

/-! ## 4. Processes one after another -/

/-- A process whose steps cannot be `Riskant` on a volume whose digests are `hlen` bytes long:
    its adds cannot fail in their second pass, and no `-r` names the all-zero digest. -/
structure ProzessSicher (hlen : Nat) (x : List GetoptErgebnis × List String × HauptUmwelt) :
    Prop where
  kopie : ∀ i, (x.2.2.addfile i).KopieGlatt
  rm : ∀ e ∈ x.1, e.opt = 'r' → hashParse e.optarg hlen ≠ some 0

/-- The actions of a process as the store sees them: the event of each token its loop ran, with
    the code the process reports for it; none when `main` refuses its command line. -/
def hauptSpur (w : HauptUmwelt) (es : List GetoptErgebnis) (devs : List String) (p : Platte) :
    List (Ereignis × Int) :=
  match mainArgumente es devs with
  | .error _ => []
  | .ok args => (tokenEreignisse w 0 args.tokens).zip ((hauptLauf D H w args p).ausgaben.map (·.1))

/-- The actions of processes one after another, as `prozesse` runs them. -/
def prozesseSpur : Platte → List (List GetoptErgebnis × List String × HauptUmwelt) →
    List (Ereignis × Int)
  | _, [] => []
  | p, (es, devs, w) :: rest =>
    hauptSpur D H w es devs p ++
      ((haupt D H w es devs p).platte.map fun p => prozesseSpur p rest).getD []

theorem neuesToken_rm {c : Char} {a : String} {t : Token} (h : neuesToken c a = some t)
    (hr : t.action = .rmobj) : c = 'r' ∧ t.path = a := by
  unfold neuesToken at h
  split at h <;> cases h
  all_goals first | exact ⟨rfl, rfl⟩ | cases hr

/-- Every remove token of the spec's list comes from a `-r` with its path as argument. -/
theorem sollTokens_rm : ∀ {es : List GetoptErgebnis} {t : Token}, t ∈ sollTokens es →
    t.action = .rmobj → ∃ e ∈ es, e.opt = 'r' ∧ e.optarg = t.path
  | [], _, ht, _ => absurd ht (List.not_mem_nil _)
  | e :: es, t, ht, hr => by
    simp only [sollTokens] at ht
    split at ht
    · rename_i t' he
      rcases List.mem_cons.mp ht with rfl | ht
      · exact ⟨e, .head _, (neuesToken_rm he hr).1, (neuesToken_rm he hr).2.symm⟩
      · obtain ⟨e', he', h⟩ := sollTokens_rm ht hr
        exact ⟨e', .tail _ he', h⟩
    · obtain ⟨e', he', h⟩ := sollTokens_rm ht hr
      exact ⟨e', .tail _ he', h⟩

theorem mainArgumente_ok {es : List GetoptErgebnis} {devs : List String} {args : Args}
    (h : mainArgumente es devs = .ok args) : parseArgs es devs 0 false = .ok args := by
  unfold mainArgumente at h
  split at h <;> cases h
  assumption

/-- A process from its command line, as `hauptLauf_speicher` has it after the argument phase. -/
theorem haupt_speicher {w : HauptUmwelt} {es : List GetoptErgebnis} {devs : List String}
    {p p' : Platte} (h : ErreichbarOhneRisiko D H ⟨p, none⟩)
    (hs : ProzessSicher p.hdrConfig.hlen (es, devs, w))
    (hp : (haupt D H w es devs p).platte = some p') :
    ErreichbarOhneRisiko D H ⟨p', none⟩ ∧ p'.hdrConfig = p.hdrConfig ∧
      SpeicherLauf p.hdrConfig.hlen (SysObjekte D ⟨p, none⟩) (hauptSpur D H w es devs p)
        (SysObjekte D ⟨p', none⟩) := by
  unfold haupt at hp
  unfold hauptSpur
  cases ha : mainArgumente es devs with
  | error c =>
    rw [ha, Option.some.injEq] at hp
    subst hp
    exact ⟨h, rfl, .nil⟩
  | ok args =>
    rw [ha] at hp
    refine hauptLauf_speicher D H w args h hs.kopie (fun t ht hr => ?_) hp
    rw [(parseArgs_tokens (mainArgumente_ok ha)).1] at ht
    obtain ⟨e, he, hopt, harg⟩ := sollTokens_rm ht hr
    exact harg ▸ hs.rm e he hopt

theorem prozesse_speicherLauf :
    ∀ (xs : List (List GetoptErgebnis × List String × HauptUmwelt)) {p p' : Platte},
      ErreichbarOhneRisiko D H ⟨p, none⟩ → (∀ x ∈ xs, ProzessSicher p.hdrConfig.hlen x) →
      prozesse D H p xs = some p' →
      SpeicherLauf p.hdrConfig.hlen (SysObjekte D ⟨p, none⟩) (prozesseSpur D H p xs)
        (SysObjekte D ⟨p', none⟩)
  | [], _, _, _, _, h => by cases h; exact .nil
  | (es, devs, w) :: xs, p, _, hp, hs, h => by
    simp only [prozesse, Option.bind_eq_some] at h
    obtain ⟨p₁, h₁, h₂⟩ := h
    obtain ⟨hp₁, hdr, hL⟩ := haupt_speicher D H hp (hs _ (.head _)) h₁
    simp only [prozesseSpur, h₁, Option.map_some', Option.getD_some]
    refine hL.append ?_
    rw [← hdr]
    exact prozesse_speicherLauf xs hp₁ (fun x hx => hdr ▸ hs x (.tail _ hx)) h₂

/-- **The tool is a content-addressed store, end to end.** After any sequence of processes of
    `shfs_admin` on a freshly made volume whose configuration loads, whatever their command lines
    and whatever fails or is cancelled, so long as no add's second pass over its file fails, no
    `-r` names the all-zero digest and no process dies in the write-back: the objects on the
    members are what the store reaches from the empty map over the actions of the processes in
    order, each with the code its process reported for it. -/
theorem prozesse_speicher {p₀ p : Platte} (h₀ : Frisch D p₀) {cs vs : Nat}
    (hc : loadVolCconf p₀.hdrCommon = some (cs, vs)) (hlen : 0 < (geoVon D p₀).htableLen)
    {xs : List (List GetoptErgebnis × List String × HauptUmwelt)}
    (hs : ∀ x ∈ xs, ProzessSicher p₀.hdrConfig.hlen x) (h : prozesse D H p₀ xs = some p) :
    SpeicherLauf p₀.hdrConfig.hlen (fun _ => none) (prozesseSpur D H p₀ xs)
      (SysObjekte D ⟨p, none⟩) := by
  rw [← frisch_objekte D h₀ hc hlen]
  exact prozesse_speicherLauf D H xs (.start p₀ h₀) hs h

/-- `shfs_admin -a a /dev/ram15` on the example volume, then `shfs_admin -l /dev/ram15`. -/
theorem prozesse_speicher_platte₀ :
    ∃ p, Frisch defs₀ platte₀ ∧ loadVolCconf platte₀.hdrCommon = some (4096, 7) ∧
      0 < (geoVon defs₀ platte₀).htableLen ∧
      (∀ x ∈ [([⟨'a', "a"⟩], ["/dev/ram15"], hauptUmwelt₀),
          ([⟨'l', ""⟩], ["/dev/ram15"], hauptUmwelt₀)],
        ProzessSicher platte₀.hdrConfig.hlen x) ∧
      prozesse defs₀ hash₀ platte₀ [([⟨'a', "a"⟩], ["/dev/ram15"], hauptUmwelt₀),
        ([⟨'l', ""⟩], ["/dev/ram15"], hauptUmwelt₀)] = some p ∧
      SpeicherLauf platte₀.hdrConfig.hlen (fun _ => none)
        (prozesseSpur defs₀ hash₀ platte₀ [([⟨'a', "a"⟩], ["/dev/ram15"], hauptUmwelt₀),
          ([⟨'l', ""⟩], ["/dev/ram15"], hauptUmwelt₀)]) (SysObjekte defs₀ ⟨p, none⟩) := by
  obtain ⟨p, h⟩ : ∃ p, prozesse defs₀ hash₀ platte₀ [([⟨'a', "a"⟩], ["/dev/ram15"], hauptUmwelt₀),
      ([⟨'l', ""⟩], ["/dev/ram15"], hauptUmwelt₀)] = some p := ⟨_, rfl⟩
  have hs : ∀ x ∈ [([⟨'a', "a"⟩], ["/dev/ram15"], hauptUmwelt₀),
      ([⟨'l', ""⟩], ["/dev/ram15"], hauptUmwelt₀)], ProzessSicher platte₀.hdrConfig.hlen x := by
    intro x hx
    simp only [List.mem_cons, List.not_mem_nil, or_false] at hx
    rcases hx with rfl | rfl <;>
      refine ⟨fun _ => ⟨rfl, fun _ => ⟨rfl, rfl, rfl⟩⟩, fun e he hr => ?_⟩ <;>
      simp only [List.mem_singleton] at he <;> subst he <;> cases hr
  exact ⟨p, frisch_platte₀, rfl, by decide, hs, h,
    prozesse_speicher defs₀ hash₀ frisch_platte₀ rfl (by decide) hs h⟩

end Minicache.Shfs
