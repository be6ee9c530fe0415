import Armadito.Os.GetOpt

/-!
# Os.OptionNames

Which command lines the option parser takes for what they say: the name in
`--name=value` stands for the option of that name, but is read as the first
one that begins so.
-/

namespace Armadito.Os.GetOpt

open Conf (nul)

/-! ## Readings compared -/

section

variable {opts : List Opt} {Means Means' : CString → Nat → Prop} {argv : List CString}
  {gs gs' : List Given}

/-- A name stands for one entry. -/
theorem Named.unique (hdistinct : (opts.map (·.longForm)).Nodup) {name : CString}
    (hno : '=' ∉ name) {k k' : Nat} (h : Named opts name k) (h' : Named opts name k') :
    k = k' := by
  have hk := (findLongOpt_eq hdistinct hno).mpr h
  have hk' := (findLongOpt_eq hdistinct hno).mpr h'
  exact Option.some.inj (hk.symm.trans hk')

theorem Reads.of_long {name : CString} (hno : '=' ∉ name)
    (h : Reads opts Means (('-' :: '-' :: name) :: argv) gs) :
    ∃ k gs', gs = (k, none) :: gs' ∧ Named opts name k ∧ Reads opts Means argv gs' := by
  generalize hargs : ('-' :: '-' :: name) :: argv = args at h
  cases h with
  | nil => cases hargs
  | long _ hnamed _ hrest =>
    cases hargs
    exact ⟨_, _, rfl, hnamed, hrest⟩
  | longValue =>
    cases hargs
    simp at hno
  | short hc =>
    cases hargs
    exact absurd rfl hc
  | shortValue hc =>
    cases hargs
    exact absurd rfl hc

theorem Reads.of_longValue {name value : CString} (hno : '=' ∉ name)
    (h : Reads opts Means (('-' :: '-' :: (name ++ '=' :: value)) :: argv) gs) :
    ∃ k gs', gs = (k, if needArg opts k then some value else none) :: gs' ∧ Means name k ∧
      Reads opts Means argv gs' := by
  generalize hargs : ('-' :: '-' :: (name ++ '=' :: value)) :: argv = args at h
  cases h with
  | nil => cases hargs
  | long hno' =>
    cases hargs
    simp at hno'
  | longValue hno' hmeans hrest =>
    simp only [List.cons.injEq, true_and] at hargs
    obtain ⟨hbody, rfl⟩ := hargs
    have hlen := congrArg (strchr · '=') hbody
    rw [strchr_append hno, strchr_append hno', Option.some.injEq] at hlen
    obtain ⟨rfl, hvalue⟩ := List.append_inj hbody hlen
    cases hvalue
    exact ⟨_, _, rfl, hmeans, hrest⟩
  | short hc =>
    simp at hargs
  | shortValue hc =>
    simp at hargs

theorem Reads.of_short {c : Char} (hc : c ≠ '-') {k : Nat} (hform : ShortForm opts c k)
    (hneed : needArg opts k = false) (h : Reads opts Means (['-', c] :: argv) gs) :
    ∃ gs', gs = (k, none) :: gs' ∧ Reads opts Means argv gs' := by
  generalize hargs : ['-', c] :: argv = args at h
  cases h with
  | nil => cases hargs
  | long =>
    cases hargs
    exact absurd rfl hc
  | longValue => simp at hargs
  | short _ hform' _ hrest =>
    cases hargs
    cases hform.symm.trans hform'
    exact ⟨_, rfl, hrest⟩
  | shortValue _ hform' hneed' =>
    cases hargs
    cases hform.symm.trans hform'
    cases hneed.symm.trans hneed'

theorem Reads.of_shortValue {c : Char} (hc : c ≠ '-') {k : Nat} (hform : ShortForm opts c k)
    (hneed : needArg opts k = true) {value : CString}
    (h : Reads opts Means (['-', c] :: value :: argv) gs) :
    ∃ gs', gs = (k, some value) :: gs' ∧ Reads opts Means argv gs' := by
  generalize hargs : ['-', c] :: value :: argv = args at h
  cases h with
  | nil => cases hargs
  | long =>
    cases hargs
    exact absurd rfl hc
  | longValue => simp at hargs
  | short _ hform' hneed' =>
    cases hargs
    cases hform.symm.trans hform'
    cases hneed.symm.trans hneed'
  | shortValue _ hform' _ hrest =>
    cases hargs
    cases hform.symm.trans hform'
    exact ⟨_, rfl, hrest⟩

/-- Two readings that agree on the names before `=` give the same. -/
theorem Reads.unique (hdistinct : (opts.map (·.longForm)).Nodup)
    (h : Reads opts Means argv gs) (h' : Reads opts Means' argv gs')
    (hagree : ∀ name value k k', '-' :: '-' :: (name ++ '=' :: value) ∈ argv → '=' ∉ name →
      Means name k → Means' name k' → k = k') : gs = gs' := by
  induction h generalizing gs' with
  | nil =>
    cases h'
    rfl
  | long hno hnamed _ _ ih =>
    obtain ⟨k', gs', rfl, hnamed', hrest'⟩ := h'.of_long hno
    cases Named.unique hdistinct hno hnamed hnamed'
    rw [ih hrest' fun name value k k' hmem => hagree name value k k' (List.mem_cons_of_mem _ hmem)]
  | longValue hno hmeans _ ih =>
    obtain ⟨k', gs', rfl, hmeans', hrest'⟩ := h'.of_longValue hno
    cases hagree _ _ _ _ List.mem_cons_self hno hmeans hmeans'
    rw [ih hrest' fun name value k k' hmem => hagree name value k k' (List.mem_cons_of_mem _ hmem)]
  | short hc hform hneed _ ih =>
    obtain ⟨gs', rfl, hrest'⟩ := h'.of_short hc hform hneed
    rw [ih hrest' fun name value k k' hmem => hagree name value k k' (List.mem_cons_of_mem _ hmem)]
  | shortValue hc hform hneed _ ih =>
    obtain ⟨gs', rfl, hrest'⟩ := h'.of_shortValue hc hform hneed
    rw [ih hrest' fun name value k k' hmem => hagree name value k k'
      (List.mem_cons_of_mem _ (List.mem_cons_of_mem _ hmem))]

/-- An entry has its own name, so some entry begins with it. -/
theorem Named.firstBegun {name : CString} {k : Nat} (h : Named opts name k) :
    ∃ k', FirstBegun opts name k' := by
  obtain ⟨opt, hopt, rfl⟩ := h
  cases hfirst : opts.findIdx? fun o => opt.longForm.isPrefixOf o.longForm with
  | none =>
    rw [List.findIdx?_eq_none_iff] at hfirst
    have hself := List.isPrefixOf_iff_prefix.mpr (List.prefix_refl opt.longForm)
    have hnot := hfirst opt (List.mem_of_getElem? hopt)
    rw [hself] at hnot
    cases hnot
  | some k' => exact ⟨k', hfirst⟩

/-- Recognised arguments can be read by the beginnings of the names. -/
theorem Reads.firstBegun (h : Reads opts (Named opts) argv gs) :
    ∃ gs', Reads opts (FirstBegun opts) argv gs' := by
  induction h with
  | nil => exact ⟨[], .nil⟩
  | long hno hnamed hneed _ ih =>
    obtain ⟨gs', hrest⟩ := ih
    exact ⟨_, .long hno hnamed hneed hrest⟩
  | longValue hno hnamed _ ih =>
    obtain ⟨gs', hrest⟩ := ih
    obtain ⟨k', hbegun⟩ := hnamed.firstBegun
    exact ⟨_, .longValue hno hbegun hrest⟩
  | short hc hform hneed _ ih =>
    obtain ⟨gs', hrest⟩ := ih
    exact ⟨_, .short hc hform hneed hrest⟩
  | shortValue hc hform hneed _ ih =>
    obtain ⟨gs', hrest⟩ := ih
    exact ⟨_, .shortValue hc hform hneed hrest⟩

end

/-! ## When the parser is exact -/

/-- The arguments before `i` are all the options, and name their entries. -/
def Recognised (opts : List Opt) (argv : List CString) (i : Nat) (gs : List Given) : Prop :=
  ∃ read rest, argv.drop 1 = read ++ rest ∧ NoOption rest ∧ Reads opts (Named opts) read gs ∧
    i = 1 + read.length

/-- The parser returns an index just for recognised arguments, with the
table that they give. -/
def Exact (opts : List Opt) (argv : List CString) : Prop :=
  ∃ r table, optParse opts argv = some (r, table) ∧
    (∀ i, r = some i ↔ ∃ gs, Recognised opts argv i gs) ∧
    ∀ i gs, Recognised opts argv i gs → table = given opts gs

/-- Where the arguments can be read by the beginnings of the names, they can
be read by the names, and the last settings of each entry are the same. No
lone `-` is reached by a table with an entry without short form. -/
structure Harmless (opts : List Opt) (argv : List CString) : Prop where
  inBounds : ∀ read rest gs, argv.drop 1 = read ++ ['-'] :: rest →
    Reads opts (FirstBegun opts) read gs → ∀ opt ∈ opts, opt.shortForm ≠ nul
  agree : ∀ read rest gs, argv.drop 1 = read ++ rest → NoOption rest →
    Reads opts (FirstBegun opts) read gs →
      ∃ gs', Reads opts (Named opts) read gs' ∧ given opts gs = given opts gs'

section

variable {opts : List Opt} (hdistinct : (opts.map (·.longForm)).Nodup) {argv : List CString}

include hdistinct

/-- Recognised arguments are what the loop reads. -/
theorem Recognised.optParse {i : Nat} {gs : List Given} (h : Recognised opts argv i gs) :
    ∃ read rest gs', argv.drop 1 = read ++ rest ∧ NoOption rest ∧ i = 1 + read.length ∧
      Reads opts (Named opts) read gs ∧ Reads opts (FirstBegun opts) read gs' ∧
      optParse opts argv = some (some i, given opts gs') := by
  obtain ⟨read, rest, hargv, hrest, hread, rfl⟩ := h
  obtain ⟨gs', hbegun⟩ := hread.firstBegun
  exact ⟨read, rest, gs', hargv, hrest, rfl, hread, hbegun,
    optParse_noOption hdistinct hargv hrest hbegun⟩

theorem Harmless.exact (h : Harmless opts argv) : Exact opts argv := by
  obtain ⟨read, rest, gs, hargv, hread, hends⟩ := readsUpTo hdistinct (argv.drop 1)
  cases hends with
  | noOption hrest =>
    have hparse := optParse_noOption hdistinct hargv hrest hread
    obtain ⟨gs', hnamed, hgiven⟩ := h.agree read rest gs hargv hrest hread
    refine ⟨_, _, hparse, fun i => ⟨?_, ?_⟩, ?_⟩
    · intro heq
      cases heq
      exact ⟨gs', read, rest, hargv, hrest, hnamed, rfl⟩
    · rintro ⟨gs'', hrecognised⟩
      obtain ⟨_, _, _, -, -, -, -, -, hparse'⟩ := hrecognised.optParse hdistinct
      have hresult := Option.some.inj (hparse.symm.trans hparse')
      exact congrArg Prod.fst hresult
    · intro i gs'' hrecognised
      obtain ⟨read', rest', _, hargv', -, rfl, hnamed', -, hparse'⟩ :=
        hrecognised.optParse hdistinct
      have hresult := Option.some.inj (hparse.symm.trans hparse')
      have hlen : 1 + read.length = 1 + read'.length :=
        Option.some.inj (congrArg Prod.fst hresult)
      obtain ⟨rfl, -⟩ := List.append_inj (hargv.symm.trans hargv') (by omega)
      rw [hgiven, hnamed.unique hdistinct hnamed' fun name _ _ _ _ hno hk hk' =>
        Named.unique hdistinct hno hk hk']
  | refused hrest =>
    -- what is refused here is not recognised either
    obtain ⟨table, hparse⟩ := optParse_refused hdistinct hargv hrest hread
    have hnone : ∀ i gs, ¬ Recognised opts argv i gs := by
      intro i gs hrecognised
      obtain ⟨_, _, _, -, -, -, -, -, hparse'⟩ := hrecognised.optParse hdistinct
      rw [hparse] at hparse'
      cases hparse'
    refine ⟨none, table, hparse, fun i => ?_, fun i gs h => absurd h (hnone i gs)⟩
    simp [hnone]
  | loneDash hrest hlone =>
    obtain ⟨opt, hopt, hnul⟩ := hlone
    exact absurd hnul (h.inBounds read _ gs (hrest ▸ hargv) hread opt hopt)

end

/-! ## Names in full -/

/-- A name before `=` is that of the first entry that begins with it. -/
def Unabbreviated (opts : List Opt) (argv : List CString) : Prop :=
  ∀ name value k, '-' :: '-' :: (name ++ '=' :: value) ∈ argv → '=' ∉ name →
    FirstBegun opts name k → Named opts name k

theorem Unabbreviated.of_cons {opts : List Opt} {a : CString} {argv : List CString}
    (h : Unabbreviated opts (a :: argv)) : Unabbreviated opts argv :=
  fun name value k hmem => h name value k (List.mem_cons_of_mem a hmem)

theorem Unabbreviated.reads {opts : List Opt} {argv : List CString} (h : Unabbreviated opts argv)
    {gs : List Given} (hread : Reads opts (FirstBegun opts) argv gs) :
    Reads opts (Named opts) argv gs := by
  induction hread with
  | nil => exact .nil
  | long hno hnamed hneed _ ih => exact .long hno hnamed hneed (ih h.of_cons)
  | longValue hno hbegun _ ih =>
    exact .longValue hno (h _ _ _ List.mem_cons_self hno hbegun) (ih h.of_cons)
  | short hc hform hneed _ ih => exact .short hc hform hneed (ih h.of_cons)
  | shortValue hc hform hneed _ ih => exact .shortValue hc hform hneed (ih h.of_cons.of_cons)

/-- Names in full do no harm. -/
theorem Unabbreviated.harmless {opts : List Opt} {argv : List CString}
    (h : Unabbreviated opts argv) (hforms : ∀ opt ∈ opts, opt.shortForm ≠ nul) :
    Harmless opts argv where
  inBounds := fun _ _ _ _ _ => hforms
  agree := by
    intro read rest gs hargv _ hread
    have hsub : Unabbreviated opts read := fun name value k hmem =>
      h name value k (List.mem_of_mem_drop (hargv ▸ List.mem_append_left rest hmem))
    exact ⟨gs, hsub.reads hread, rfl⟩

/-! ## A name that begins another -/

/-- Two options with values. -/
def outOptions : List Opt :=
  [⟨"out-dir".toList, 'd', true, false, none⟩, ⟨"out".toList, 'o', true, false, none⟩]

/-- The argument `--out=x`. -/
def outArguments : List CString :=
  ["prog".toList, '-' :: '-' :: ("out".toList ++ '=' :: ['x'])]

end Armadito.Os.GetOpt
