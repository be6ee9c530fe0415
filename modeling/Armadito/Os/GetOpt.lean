import Mathlib.Data.List.Nodup
import Armadito.Conf.Value

/-!
# Os.GetOpt

`getopt.c`, the options of a command line. A long option is looked for by
its whole name, but by the beginning of a name when `=` follows it.

A table of options is a list without its last entry, whose name is NULL. An
entry that was found is named by its index.
-/

namespace Armadito.Os.GetOpt

open Conf (nul)

/-- `struct opt`. -/
structure Opt where
  longForm : CString
  shortForm : Char
  needArg : Bool
  isSet : Bool
  value : Option CString
  deriving DecidableEq, Repr

/-! ## The parser -/

/-- `clear_opt`. -/
def clearOpt (opts : List Opt) : List Opt :=
  opts.map fun opt => { opt with isSet := false, value := none }

/-- `strchr`, as an offset. -/
def strchr (s : CString) (c : Char) : Option Nat := s.idxOf? c

/-- `!strncmp`. -/
def sameStart (s t : CString) (n : Nat) : Bool := s.take n = t.take n

/-- `found` for one entry. -/
def longFound (arg longForm : CString) : Bool :=
  match strchr (arg.drop 2) '=' with
  | none => arg.drop 2 = longForm
  | some l => sameStart (arg.drop 2) longForm l

/-- `find_long_opt`; the index of the option. -/
def findLongOpt (opts : List Opt) (arg : CString) : Option Nat :=
  opts.findIdx? fun opt => longFound arg opt.longForm

/-- The test for one entry. The terminator of a lone `-` is its `arg[1]`, and
`arg[2]` is behind it. -/
def shortFound (arg : CString) (shortForm : Char) : Option Bool :=
  match arg.drop 1 with
  | [] => if shortForm = nul then none else some false
  | c :: rest => some (c = shortForm ∧ rest = [])

/-- NULL is `some none`. -/
def findShortOpt (arg : CString) : List Opt → Option (Option Nat)
  | [] => some none
  | opt :: opts => do
    if ← shortFound arg opt.shortForm then return some 0
    return (← findShortOpt arg opts).map (· + 1)

/-- `is_option`. -/
def isOption (a : CString) : Bool := a.head? = some '-'

/-- `is_long_option`. -/
def isLongOption (a : CString) : Bool := a[1]? = some '-'

/-- `found_opt->need_arg`. -/
def needArg (opts : List Opt) (k : Nat) : Bool := opts[k]?.any (·.needArg)

/-- The option is set. -/
def setFound (opts : List Opt) (k : Nat) : List Opt :=
  opts.modify k fun opt => { opt with isSet := true }

/-- The option gets its value. -/
def setValue (opts : List Opt) (k : Nat) (value : CString) : List Opt :=
  opts.modify k fun opt => { opt with value := some value }

/-- The loop, from the argument `i` on. The result is -1 where it is
`some (none, _)`; an access out of bounds has none. -/
def optLoop (opts : List Opt) (i : Nat) : List CString → Option (Option Nat × List Opt)
  | [] => some (some i, opts)
  | o :: argv =>
    if isOption o then
      if isLongOption o then
        match findLongOpt opts o with
        | none => some (none, opts)
        | some k =>
          let opts := setFound opts k
          -- a value that is not needed is not looked at
          if needArg opts k then
            match strchr (o.drop 2) '=' with
            | none => some (none, opts)
            | some a => optLoop (setValue opts k (o.drop (2 + a + 1))) (i + 1) argv
          else optLoop opts (i + 1) argv
      else
        match findShortOpt o opts with
        | none => none
        | some none => some (none, opts)
        | some (some k) =>
          let opts := setFound opts k
          if needArg opts k then
            match argv with
            | [] => some (none, opts)
            | a :: argv => optLoop (setValue opts k a) (i + 2) argv
          else optLoop opts (i + 1) argv
    else some (some i, opts)

/-- `opt_parse`. -/
def optParse (opts : List Opt) (argv : List CString) : Option (Option Nat × List Opt) :=
  optLoop (clearOpt opts) 1 (argv.drop 1)

/-- `opt_is_set`. -/
def optIsSet (opts : List Opt) (optName : CString) : Bool :=
  match opts.find? fun opt => opt.longForm = optName with
  | none => false
  | some opt => opt.isSet

/-- `opt_value`. -/
def optValue (opts : List Opt) (optName : CString) (defaultValue : Option CString) :
    Option CString :=
  match opts.find? fun opt => opt.longForm = optName && opt.isSet with
  | none => defaultValue
  | some opt => opt.value

/-! ## Readings of the arguments -/

/-- An argument that is an option sets an entry, with a value or without. -/
abbrev Given := Nat × Option CString

/-- The name of the entry. -/
def Named (opts : List Opt) (name : CString) (k : Nat) : Prop :=
  ∃ opt, opts[k]? = some opt ∧ opt.longForm = name

/-- The first entry with a name that begins so. -/
def FirstBegun (opts : List Opt) (name : CString) (k : Nat) : Prop :=
  opts.findIdx? (fun opt => name.isPrefixOf opt.longForm) = some k

/-- The first entry with the short form. -/
def ShortForm (opts : List Opt) (c : Char) (k : Nat) : Prop :=
  opts.findIdx? (fun opt => opt.shortForm = c) = some k

/-- The arguments are options, each with its value where it needs one.
`Means` tells which entry the name in `--name=value` stands for. -/
inductive Reads (opts : List Opt) (Means : CString → Nat → Prop) :
    List CString → List Given → Prop where
  | nil : Reads opts Means [] []
  | long {name k argv gs} : '=' ∉ name → Named opts name k → needArg opts k = false →
      Reads opts Means argv gs →
      Reads opts Means (('-' :: '-' :: name) :: argv) ((k, none) :: gs)
  | longValue {name value k argv gs} : '=' ∉ name → Means name k → Reads opts Means argv gs →
      Reads opts Means (('-' :: '-' :: (name ++ '=' :: value)) :: argv)
        ((k, if needArg opts k then some value else none) :: gs)
  | short {c k argv gs} : c ≠ '-' → ShortForm opts c k → needArg opts k = false →
      Reads opts Means argv gs → Reads opts Means (['-', c] :: argv) ((k, none) :: gs)
  | shortValue {c value k argv gs} : c ≠ '-' → ShortForm opts c k → needArg opts k = true →
      Reads opts Means argv gs →
      Reads opts Means (['-', c] :: value :: argv) ((k, some value) :: gs)

/-- The options end here. -/
def NoOption (argv : List CString) : Prop := ∀ a, argv.head? = some a → isOption a = false

/-- The last value that an entry is given. -/
def lastValue (k : Nat) : List Given → Option CString
  | [] => none
  | g :: gs => (lastValue k gs).or (if g.1 = k then g.2 else none)

/-- The table in which the entries that are given are set, to the last of
their values. -/
def given (opts : List Opt) (gs : List Given) : List Opt :=
  opts.mapIdx fun k opt =>
    { opt with isSet := gs.any fun g => g.1 = k, value := lastValue k gs }

/-! ## What the program asks the table -/

theorem find?_named {table : List Opt} (hdistinct : (table.map (·.longForm)).Nodup) {k : Nat}
    {opt : Opt} (hopt : table[k]? = some opt) (p : Opt → Bool) :
    table.find? (fun o => o.longForm = opt.longForm && p o) = if p opt then some opt else none := by
  induction table generalizing k with
  | nil => cases hopt
  | cons o table ih =>
    rw [List.map_cons, List.nodup_cons] at hdistinct
    obtain ⟨hfirst, hdistinct⟩ := hdistinct
    cases k with
    | zero =>
      cases hopt
      have hlater : table.find? (fun o => o.longForm = opt.longForm && p o) = none := by
        rw [List.find?_eq_none]
        intro o ho
        have hne : o.longForm ≠ opt.longForm := fun heq => hfirst (heq ▸ List.mem_map_of_mem ho)
        simp [hne]
      rw [List.find?_cons, hlater]
      cases p opt <;> simp
    | succ k =>
      rw [List.getElem?_cons_succ] at hopt
      have hne : o.longForm ≠ opt.longForm := fun heq =>
        hfirst (heq ▸ List.mem_map_of_mem (List.mem_of_getElem? hopt))
      rw [List.find?_cons, ih hdistinct hopt]
      simp [hne]

theorem getElem?_given {opts : List Opt} {k : Nat} {opt : Opt} (h : opts[k]? = some opt)
    (gs : List Given) : (given opts gs)[k]? =
      some { opt with isSet := gs.any fun g => g.1 = k, value := lastValue k gs } := by
  rw [given, List.getElem?_mapIdx, h]
  rfl

section

variable {opts : List Opt} (hdistinct : (opts.map (·.longForm)).Nodup) {name : CString}
  {k : Nat} (h : Named opts name k) (gs : List Given)

include hdistinct

theorem given_distinct : ((given opts gs).map (·.longForm)).Nodup := by
  have hnames : (given opts gs).map (·.longForm) = opts.map (·.longForm) := by
    apply List.ext_getElem?
    intro k
    rw [given, List.getElem?_map, List.getElem?_mapIdx, List.getElem?_map, Option.map_map]
    rfl
  rwa [hnames]

include h

theorem optIsSet_given : optIsSet (given opts gs) name = gs.any fun g => g.1 = k := by
  obtain ⟨opt, hopt, rfl⟩ := h
  have hfind := find?_named (given_distinct hdistinct gs) (getElem?_given hopt gs) fun _ => true
  simp only [Bool.and_true, if_true] at hfind
  simp only [optIsSet, hfind]

theorem optValue_given (defaultValue : Option CString) :
    optValue (given opts gs) name defaultValue =
      if (gs.any fun g => g.1 = k) then lastValue k gs else defaultValue := by
  obtain ⟨opt, hopt, rfl⟩ := h
  have hfind := find?_named (given_distinct hdistinct gs) (getElem?_given hopt gs) (·.isSet)
  simp only [optValue, hfind]
  split_ifs <;> rfl

end

/-! ## The declarations of a table -/

/-- What the parser does not change. -/
def Opt.decl (opt : Opt) : CString × Char × Bool := (opt.longForm, opt.shortForm, opt.needArg)

/-- The entries with the same declarations. -/
def Same (opts table : List Opt) : Prop := table.map Opt.decl = opts.map Opt.decl

theorem Same.findLongOpt {opts table : List Opt} (h : Same opts table) (arg : CString) :
    findLongOpt table arg = findLongOpt opts arg := by
  have hdecl : ∀ l : List Opt, Armadito.Os.GetOpt.findLongOpt l arg =
      (l.map Opt.decl).findIdx? fun d => longFound arg d.1 := by
    intro l
    rw [List.findIdx?_map]
    rfl
  rw [hdecl, hdecl, h]

theorem Same.needArg {opts table : List Opt} (h : Same opts table) (k : Nat) :
    needArg table k = needArg opts k := by
  have hdecl : ∀ l : List Opt, Armadito.Os.GetOpt.needArg l k =
      (l.map Opt.decl)[k]?.any fun d => d.2.2 := by
    intro l
    rw [List.getElem?_map, Option.any_map]
    rfl
  rw [hdecl, hdecl, h]

theorem Same.findShortOpt {opts table : List Opt} (h : Same opts table) (arg : CString) :
    findShortOpt arg table = findShortOpt arg opts := by
  induction table generalizing opts with
  | nil =>
    cases opts with
    | nil => rfl
    | cons opt opts => cases h
  | cons opt table ih =>
    cases opts with
    | nil => cases h
    | cons opt' opts =>
      rw [Same, List.map_cons, List.map_cons, List.cons.injEq] at h
      have hform : opt.shortForm = opt'.shortForm := congrArg (·.2.1) h.1
      rw [Armadito.Os.GetOpt.findShortOpt, Armadito.Os.GetOpt.findShortOpt, hform, ih h.2]

theorem Same.modify {opts table : List Opt} (h : Same opts table) (k : Nat) {f : Opt → Opt}
    (hf : ∀ opt, (f opt).decl = opt.decl) : Same opts (table.modify k f) := by
  rw [Same, ← h]
  apply List.ext_getElem?
  intro j
  rw [List.getElem?_map, List.getElem?_map, List.getElem?_modify]
  cases table[j]? with
  | none => rfl
  | some opt => by_cases hkj : k = j <;> simp [hkj, hf]

theorem Same.setFound {opts table : List Opt} (h : Same opts table) (k : Nat) :
    Same opts (setFound table k) := h.modify k fun _ => rfl

theorem Same.setValue {opts table : List Opt} (h : Same opts table) (k : Nat) (value : CString) :
    Same opts (setValue table k value) := h.modify k fun _ => rfl

theorem same_clearOpt (opts : List Opt) : Same opts (clearOpt opts) := by
  rw [Same, clearOpt, List.map_map]
  rfl

/-! ## What is found -/

theorem strchr_eq_none {s : CString} (h : '=' ∉ s) : strchr s '=' = none :=
  List.idxOf?_eq_none_iff.mpr h

theorem strchr_append {name : CString} (h : '=' ∉ name) (value : CString) :
    strchr (name ++ '=' :: value) '=' = some name.length := by
  rw [strchr, List.idxOf?_eq_some_iff]
  refine ⟨by simp, by simp, ?_⟩
  intro j hj
  rw [List.getElem_append_left hj]
  intro heq
  exact h (heq ▸ List.getElem_mem hj)

/-- With a value, the name is compared over its own length. -/
theorem findLongOpt_value {opts : List Opt} {name : CString} (h : '=' ∉ name) {k : Nat}
    (value : CString) :
    findLongOpt opts ('-' :: '-' :: (name ++ '=' :: value)) = some k ↔
      FirstBegun opts name k := by
  have hfound : ∀ longForm : CString,
      longFound ('-' :: '-' :: (name ++ '=' :: value)) longForm =
        name.isPrefixOf longForm := by
    intro longForm
    simp only [longFound, List.drop_succ_cons, List.drop_zero, strchr_append h, sameStart,
      List.take_left]
    rw [Bool.eq_iff_iff, decide_eq_true_iff, List.isPrefixOf_iff_prefix,
      List.prefix_iff_eq_take]
  simp only [findLongOpt, FirstBegun, hfound]

/-- Without one, whole names are compared. -/
theorem findLongOpt_eq {opts : List Opt} (hdistinct : (opts.map (·.longForm)).Nodup)
    {name : CString} (h : '=' ∉ name) {k : Nat} :
    findLongOpt opts ('-' :: '-' :: name) = some k ↔ Named opts name k := by
  have hfound : ∀ longForm : CString,
      longFound ('-' :: '-' :: name) longForm = decide (name = longForm) := by
    intro longForm
    simp only [longFound, List.drop_succ_cons, List.drop_zero, strchr_eq_none h]
  simp only [findLongOpt, hfound, List.findIdx?_eq_some_iff_getElem, decide_eq_true_iff]
  constructor
  · rintro ⟨hk, hname, -⟩
    exact ⟨opts[k], List.getElem?_eq_getElem hk, hname.symm⟩
  · rintro ⟨opt, hopt, rfl⟩
    obtain ⟨hk, rfl⟩ := List.getElem?_eq_some_iff.mp hopt
    refine ⟨hk, rfl, ?_⟩
    -- an earlier entry has another name
    intro j hj heq
    have hk' : k < (opts.map (·.longForm)).length := by rwa [List.length_map]
    have hj' : j < (opts.map (·.longForm)).length := Nat.lt_trans hj hk'
    have hnames : (opts.map (·.longForm))[k] = (opts.map (·.longForm))[j] := by
      rw [List.getElem_map, List.getElem_map]
      exact heq
    have hindex := hdistinct.getElem_inj_iff.mp hnames
    omega

theorem findShortOpt_letter (opts : List Opt) (c : Char) :
    findShortOpt ['-', c] opts = some (opts.findIdx? fun opt => opt.shortForm = c) := by
  induction opts with
  | nil => rfl
  | cons opt opts ih =>
    simp only [findShortOpt, shortFound, ih, List.findIdx?_cons]
    by_cases hc : opt.shortForm = c
    · simp [hc]
    · simp [hc, Ne.symm hc]

theorem findShortOpt_longer (opts : List Opt) (c d : Char) (rest : CString) :
    findShortOpt ('-' :: c :: d :: rest) opts = some none := by
  induction opts with
  | nil => rfl
  | cons opt opts ih => simp [findShortOpt, shortFound, ih]

/-- A lone `-`, where all entries have a short form. -/
theorem findShortOpt_lone {opts : List Opt} (h : ∀ opt ∈ opts, opt.shortForm ≠ nul) :
    findShortOpt ['-'] opts = some none := by
  induction opts with
  | nil => rfl
  | cons opt opts ih =>
    obtain ⟨hopt, hopts⟩ := List.forall_mem_cons.mp h
    simp [findShortOpt, shortFound, hopt, ih hopts]

theorem findShortOpt_lone_eq_none {opts : List Opt} (h : ∃ opt ∈ opts, opt.shortForm = nul) :
    findShortOpt ['-'] opts = none := by
  induction opts with
  | nil => simp at h
  | cons opt opts ih =>
    by_cases hopt : opt.shortForm = nul
    · simp [findShortOpt, shortFound, hopt]
    · have hopts : ∃ opt ∈ opts, opt.shortForm = nul := by simpa [hopt] using h
      simp [findShortOpt, shortFound, hopt, ih hopts]

/-! ## The loop -/

/-- What an option does to the table. -/
def setGiven (table : List Opt) (g : Given) : List Opt :=
  match g.2 with
  | none => setFound table g.1
  | some value => setValue (setFound table g.1) g.1 value

theorem Same.setGiven {opts table : List Opt} (h : Same opts table) (g : Given) :
    Same opts (setGiven table g) := by
  obtain ⟨k, value⟩ := g
  cases value with
  | none => exact h.setFound k
  | some value => exact (h.setFound k).setValue k value

@[simp] theorem isOption_cons (body : CString) : isOption ('-' :: body) = true := rfl

@[simp] theorem isLongOption_long (body : CString) : isLongOption ('-' :: '-' :: body) = true := rfl

theorem isLongOption_short {body : CString} (h : body.head? ≠ some '-') :
    isLongOption ('-' :: body) = false := by
  cases body with
  | nil => rfl
  | cons c rest => exact decide_eq_false h

theorem drop_value (name value : CString) :
    ('-' :: '-' :: (name ++ '=' :: value)).drop (2 + name.length + 1) = value := by
  have hsplit : '-' :: '-' :: (name ++ '=' :: value) =
      ('-' :: '-' :: (name ++ ['='])) ++ value := by simp
  have hlen : 2 + name.length + 1 = ('-' :: '-' :: (name ++ ['='])).length := by
    simp only [List.length_cons, List.length_append, List.length_nil]
    omega
  rw [hsplit, hlen, List.drop_left]

/-- The loop at an argument with two dashes. -/
theorem optLoop_long (table : List Opt) (i : Nat) (body : CString) (argv : List CString) :
    optLoop table i (('-' :: '-' :: body) :: argv) =
      match findLongOpt table ('-' :: '-' :: body) with
      | none => some (none, table)
      | some k =>
        if needArg (setFound table k) k then
          match strchr body '=' with
          | none => some (none, setFound table k)
          | some a => optLoop (setValue (setFound table k) k
              (('-' :: '-' :: body).drop (2 + a + 1))) (i + 1) argv
        else optLoop (setFound table k) (i + 1) argv := by
  rw [optLoop, isOption_cons, isLongOption_long]
  rfl

/-- The loop at an argument with one dash. -/
theorem optLoop_short (table : List Opt) (i : Nat) {body : CString} (h : body.head? ≠ some '-')
    (argv : List CString) :
    optLoop table i (('-' :: body) :: argv) =
      match findShortOpt ('-' :: body) table with
      | none => none
      | some none => some (none, table)
      | some (some k) =>
        if needArg (setFound table k) k then
          match argv with
          | [] => some (none, setFound table k)
          | a :: argv => optLoop (setValue (setFound table k) k a) (i + 2) argv
        else optLoop (setFound table k) (i + 1) argv := by
  rw [optLoop, isOption_cons, isLongOption_short h]
  rfl

/-- The loop reads a name before `=` as the first one that begins so. -/
theorem optLoop_reads {opts : List Opt} (hdistinct : (opts.map (·.longForm)).Nodup)
    {read : List CString} {gs : List Given} (h : Reads opts (FirstBegun opts) read gs)
    {table : List Opt} (hsame : Same opts table) (i : Nat) (rest : List CString) :
    optLoop table i (read ++ rest) =
      optLoop (gs.foldl setGiven table) (i + read.length) rest := by
  induction h generalizing table i with
  | nil => rfl
  | @long name k argv gs hno hnamed hneed _ ih =>
    have hfind := (hsame.findLongOpt _).trans ((findLongOpt_eq hdistinct hno).mpr hnamed)
    have hneed' := ((hsame.setFound k).needArg k).trans hneed
    rw [List.cons_append, optLoop_long, hfind]
    simp only [hneed', Bool.false_eq_true, if_false]
    rw [ih (hsame.setFound k), List.length_cons, Nat.add_right_comm, Nat.add_assoc]
    rfl
  | @longValue name value k argv gs hno hbegun _ ih =>
    have hfind := (hsame.findLongOpt _).trans ((findLongOpt_value hno value).mpr hbegun)
    have hneed := (hsame.setFound k).needArg k
    rw [List.cons_append, optLoop_long, hfind, List.foldl_cons]
    have hnext := ih (hsame.setGiven (k, if needArg opts k then some value else none)) (i + 1)
    rw [List.length_cons, ← Nat.add_assoc, Nat.add_right_comm, ← hnext]
    cases hk : needArg opts k with
    | false => simp [hneed, hk, setGiven]
    | true =>
      have hdrop := drop_value name value
      simp [hneed, hk, setGiven, strchr_append hno, hdrop]
  | @short c k argv gs hc hform hneed _ ih =>
    have hfind := (hsame.findShortOpt ['-', c]).trans (findShortOpt_letter opts c)
    rw [hform] at hfind
    have hneed' := ((hsame.setFound k).needArg k).trans hneed
    rw [List.cons_append, optLoop_short table i (by simpa using hc), hfind]
    simp only [hneed', Bool.false_eq_true, if_false]
    rw [ih (hsame.setFound k), List.length_cons, Nat.add_right_comm, Nat.add_assoc]
    rfl
  | @shortValue c value k argv gs hc hform hneed _ ih =>
    have hfind := (hsame.findShortOpt ['-', c]).trans (findShortOpt_letter opts c)
    rw [hform] at hfind
    have hneed' := ((hsame.setFound k).needArg k).trans hneed
    rw [List.cons_append, List.cons_append, optLoop_short table i (by simpa using hc), hfind]
    simp only [if_true, hneed']
    rw [ih ((hsame.setFound k).setValue k value), List.length_cons, List.length_cons,
      Nat.add_right_comm, Nat.add_assoc]
    rfl

theorem optLoop_noOption {argv : List CString} (h : NoOption argv) (table : List Opt) (i : Nat) :
    optLoop table i argv = some (some i, table) := by
  cases argv with
  | nil => rfl
  | cons a argv => rw [optLoop, h a rfl, if_neg Bool.false_ne_true]

theorem optLoop_loneDash {opts table : List Opt} (hsame : Same opts table)
    (h : ∃ opt ∈ opts, opt.shortForm = nul) (i : Nat) (argv : List CString) :
    optLoop table i (['-'] :: argv) = none := by
  have hfind := (hsame.findShortOpt ['-']).trans (findShortOpt_lone_eq_none h)
  rw [optLoop_short table i (by simp), hfind]

/-- The loop ends with -1 at the first of the arguments. -/
def Refused (opts : List Opt) (argv : List CString) : Prop :=
  ∀ table i, Same opts table → ∃ table', optLoop table i argv = some (none, table')

theorem refused_long {opts : List Opt} {body : CString}
    (h : findLongOpt opts ('-' :: '-' :: body) = none) (argv : List CString) :
    Refused opts (('-' :: '-' :: body) :: argv) := by
  intro table i hsame
  have hfind := (hsame.findLongOpt _).trans h
  rw [optLoop_long, hfind]
  exact ⟨table, rfl⟩

theorem refused_noValue {opts : List Opt} {name : CString} (hno : '=' ∉ name) {k : Nat}
    (h : findLongOpt opts ('-' :: '-' :: name) = some k) (hneed : needArg opts k = true)
    (argv : List CString) : Refused opts (('-' :: '-' :: name) :: argv) := by
  intro table i hsame
  have hfind := (hsame.findLongOpt _).trans h
  have hneed' := ((hsame.setFound k).needArg k).trans hneed
  rw [optLoop_long, hfind]
  simp [hneed', strchr_eq_none hno]

theorem refused_short {opts : List Opt} {c : Char} (hc : c ≠ '-') {rest : CString}
    (h : findShortOpt ('-' :: c :: rest) opts = some none) (argv : List CString) :
    Refused opts (('-' :: c :: rest) :: argv) := by
  intro table i hsame
  have hfind := (hsame.findShortOpt _).trans h
  rw [optLoop_short table i (by simpa using hc), hfind]
  exact ⟨table, rfl⟩

theorem refused_last {opts : List Opt} {c : Char} (hc : c ≠ '-') {k : Nat}
    (h : ShortForm opts c k) (hneed : needArg opts k = true) : Refused opts [['-', c]] := by
  intro table i hsame
  have hfind := (hsame.findShortOpt ['-', c]).trans (findShortOpt_letter opts c)
  rw [h] at hfind
  have hneed' := ((hsame.setFound k).needArg k).trans hneed
  rw [optLoop_short table i (by simpa using hc), hfind]
  simp [hneed']

theorem refused_lone {opts : List Opt} (h : ∀ opt ∈ opts, opt.shortForm ≠ nul)
    (argv : List CString) : Refused opts (['-'] :: argv) := by
  intro table i hsame
  have hfind := (hsame.findShortOpt ['-']).trans (findShortOpt_lone h)
  rw [optLoop_short table i (by simp), hfind]
  exact ⟨table, rfl⟩

/-! ## Where the loop ends -/

/-- The loop ends behind the options, or with -1, or at a lone `-` that it
reads too far. -/
inductive Ends (opts : List Opt) (argv : List CString) : Prop where
  | noOption : NoOption argv → Ends opts argv
  | refused : Refused opts argv → Ends opts argv
  | loneDash {rest} : argv = ['-'] :: rest → (∃ opt ∈ opts, opt.shortForm = nul) → Ends opts argv

/-- The options that the loop reads, up to where it ends. -/
def ReadsUpTo (opts : List Opt) (argv : List CString) : Prop :=
  ∃ read rest gs, argv = read ++ rest ∧ Reads opts (FirstBegun opts) read gs ∧ Ends opts rest

theorem ReadsUpTo.here {opts : List Opt} {argv : List CString} (h : Ends opts argv) :
    ReadsUpTo opts argv := ⟨[], argv, [], rfl, .nil, h⟩

theorem ReadsUpTo.long {opts : List Opt} (hdistinct : (opts.map (·.longForm)).Nodup)
    {argv : List CString} (h : ReadsUpTo opts argv) (body : CString) :
    ReadsUpTo opts (('-' :: '-' :: body) :: argv) := by
  obtain ⟨read, rest, gs, rfl, hread, hends⟩ := h
  cases hfind : findLongOpt opts ('-' :: '-' :: body) with
  | none => exact .here (.refused (refused_long hfind _))
  | some k =>
    -- a value stands behind the first `=`
    by_cases hbody : '=' ∈ body
    · obtain ⟨name, value, rfl, hno⟩ := List.eq_append_cons_of_mem hbody
      have hbegun := (findLongOpt_value hno value).mp hfind
      exact ⟨_, rest, _, rfl, .longValue hno hbegun hread, hends⟩
    · cases hneed : needArg opts k with
      | true => exact .here (.refused (refused_noValue hbody hfind hneed _))
      | false =>
        have hnamed := (findLongOpt_eq hdistinct hbody).mp hfind
        exact ⟨_, rest, _, rfl, .long hbody hnamed hneed hread, hends⟩

/-- A short option may take the argument behind it. -/
theorem ReadsUpTo.letter {opts : List Opt} {c : Char} (hc : c ≠ '-') {argv : List CString}
    (h : ∀ argv', argv' = argv ∨ argv' = argv.tail → ReadsUpTo opts argv') :
    ReadsUpTo opts (['-', c] :: argv) := by
  have hfind := findShortOpt_letter opts c
  cases hform : opts.findIdx? fun opt => opt.shortForm = c with
  | none =>
    rw [hform] at hfind
    exact .here (.refused (refused_short hc hfind argv))
  | some k =>
    cases hneed : needArg opts k with
    | false =>
      obtain ⟨read, rest, gs, rfl, hread, hends⟩ := h argv (.inl rfl)
      exact ⟨_, rest, _, rfl, .short hc hform hneed hread, hends⟩
    | true =>
      cases argv with
      | nil => exact .here (.refused (refused_last hc hform hneed))
      | cons value argv =>
        obtain ⟨read, rest, gs, rfl, hread, hends⟩ := h argv (.inr rfl)
        exact ⟨_, rest, _, rfl, .shortValue hc hform hneed hread, hends⟩

theorem readsUpTo {opts : List Opt} (hdistinct : (opts.map (·.longForm)).Nodup)
    (argv : List CString) : ReadsUpTo opts argv := by
  -- a short option can take two arguments
  induction hlen : argv.length using Nat.strong_induction_on generalizing argv with
  | _ n ih =>
    subst hlen
    match argv with
    | [] => exact .here (.noOption (by simp [NoOption]))
    | a :: argv =>
      cases hoption : isOption a with
      | false => exact .here (.noOption (by simpa [NoOption] using hoption))
      | true =>
        obtain ⟨body, rfl⟩ : ∃ body, a = '-' :: body := by
          cases a with
          | nil => cases hoption
          | cons c body => exact ⟨body, by simpa [isOption] using hoption⟩
        match body with
        | [] =>
          by_cases hlone : ∃ opt ∈ opts, opt.shortForm = nul
          · exact .here (.loneDash rfl hlone)
          · refine .here (.refused (refused_lone ?_ argv))
            exact fun opt hopt heq => hlone ⟨opt, hopt, heq⟩
        | c :: body =>
          by_cases hc : c = '-'
          · subst hc
            exact (ih argv.length (by simp) argv rfl).long hdistinct body
          · cases body with
            | nil =>
              refine .letter hc fun argv' hargv => ih argv'.length ?_ argv' rfl
              rcases hargv with rfl | rfl
              · exact Nat.lt_succ_self _
              · rw [List.length_tail, List.length_cons]
                omega
            | cons d body =>
              exact .here (.refused (refused_short hc (findShortOpt_longer opts c d body) argv))

/-! ## The table at the end -/

theorem getElem?_setGiven (table : List Opt) (g : Given) (k : Nat) :
    (setGiven table g)[k]? = table[k]?.map fun opt =>
      if g.1 = k then { opt with isSet := true, value := g.2.or opt.value } else opt := by
  obtain ⟨j, value⟩ := g
  cases value with
  | none =>
    simp only [setGiven, setFound, List.getElem?_modify]
    rfl
  | some value =>
    simp only [setGiven, setFound, setValue, List.getElem?_modify]
    cases table[k]? with
    | none => rfl
    | some opt => by_cases hjk : j = k <;> simp [hjk]

theorem getElem?_foldl_setGiven (table : List Opt) (gs : List Given) (k : Nat) :
    (gs.foldl setGiven table)[k]? = table[k]?.map fun opt =>
      { opt with
        isSet := opt.isSet || gs.any fun g => g.1 = k
        value := (lastValue k gs).or opt.value } := by
  induction gs generalizing table with
  | nil => simp [lastValue]
  | cons g gs ih =>
    rw [List.foldl_cons, ih, getElem?_setGiven, Option.map_map]
    congr 1
    funext opt
    by_cases hk : g.1 = k <;> simp [lastValue, hk, Option.or_assoc]

theorem foldl_setGiven_clearOpt (opts : List Opt) (gs : List Given) :
    gs.foldl setGiven (clearOpt opts) = given opts gs := by
  apply List.ext_getElem?
  intro k
  rw [getElem?_foldl_setGiven, clearOpt, given, List.getElem?_map, List.getElem?_mapIdx,
    Option.map_map]
  congr 1
  funext opt
  simp

theorem same_foldl_setGiven {opts table : List Opt} (h : Same opts table) (gs : List Given) :
    Same opts (gs.foldl setGiven table) := by
  induction gs generalizing table with
  | nil => exact h
  | cons g gs ih => exact ih (h.setGiven g)

/-! ## The result -/

section

variable {opts : List Opt} (hdistinct : (opts.map (·.longForm)).Nodup) {argv : List CString}
  {read rest : List CString} {gs : List Given}

include hdistinct

theorem optParse_append (hargv : argv.drop 1 = read ++ rest)
    (hread : Reads opts (FirstBegun opts) read gs) :
    optParse opts argv = optLoop (given opts gs) (1 + read.length) rest := by
  rw [optParse, hargv, optLoop_reads hdistinct hread (same_clearOpt opts),
    foldl_setGiven_clearOpt]

theorem optParse_noOption (hargv : argv.drop 1 = read ++ rest) (hrest : NoOption rest)
    (hread : Reads opts (FirstBegun opts) read gs) :
    optParse opts argv = some (some (1 + read.length), given opts gs) := by
  rw [optParse_append hdistinct hargv hread, optLoop_noOption hrest]

theorem optParse_loneDash (hargv : argv.drop 1 = read ++ ['-'] :: rest)
    (hread : Reads opts (FirstBegun opts) read gs) (h : ∃ opt ∈ opts, opt.shortForm = nul) :
    optParse opts argv = none := by
  rw [optParse_append hdistinct hargv hread, ← foldl_setGiven_clearOpt]
  exact optLoop_loneDash (same_foldl_setGiven (same_clearOpt opts) gs) h _ _

theorem optParse_refused (hargv : argv.drop 1 = read ++ rest) (hrest : Refused opts rest)
    (hread : Reads opts (FirstBegun opts) read gs) :
    ∃ table, optParse opts argv = some (none, table) := by
  rw [optParse_append hdistinct hargv hread, ← foldl_setGiven_clearOpt]
  exact hrest _ _ (same_foldl_setGiven (same_clearOpt opts) gs)

end

end Armadito.Os.GetOpt
