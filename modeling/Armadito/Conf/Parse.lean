import Armadito.Conf.Sections

/-!
# Conf.Parse

The parser as a whole: it accepts the configurations of the grammar and
nothing else, and it makes the calls for the definitions that are complete,
whether the text is accepted or not.
-/

namespace Armadito.Conf

variable {σ : Type} (callback : ConfParserCallback σ)

/-! ## The end of the file -/

theorem parse_of_next {text : List Char} {u : σ} {cp : A6oConfParser σ}
    (h : rConfiguration callback (parserStart text u) = .next cp) :
    a6oConfParserParse callback (some text) u =
      (if cp.lookahead.type = .eof then 0 else -2, cp.userData) := by
  rw [a6oConfParserParse, h, Flow.next_bind, tokenAccept]
  split_ifs with heof <;> simp_all

theorem parse_of_longjmp {text : List Char} {u : σ} {cp : A6oConfParser σ}
    (h : rConfiguration callback (parserStart text u) = .longjmp cp) :
    a6oConfParserParse callback (some text) u = (-2, cp.userData) := by
  rw [a6oConfParserParse, h, Flow.longjmp_bind]

theorem parserStart_clean (text : List Char) (u : σ) : Clean (parserStart text u) :=
  ⟨rfl, rfl, rfl⟩

/-- The end of the file does not go on with a string list. -/
theorem Derivable.completed {ts : List Token} {ds : List ConfDefinition}
    (h : Derivable ts ds) : Completed ts ds := by
  obtain ⟨conf, last, hts, heof, hconf⟩ := h
  exact ⟨conf, [last], hts, hconf, fun _ =>
    not_startsWithListSep_of_type heof (by decide) (by decide)⟩

/-! ## The calls that are made -/

/-- The calls are for definitions completed in the text; accepted texts are
configurations. -/
theorem parse_sound (text : List Char) (u : σ) :
    ∃ ds, Completed (tokens .none text) ds ∧
      (a6oConfParserParse callback (some text) u).2 = (feed callback ds u).1 ∧
      ((a6oConfParserParse callback (some text) u).1 = 0 →
        Derivable (tokens .none text) ds ∧ (feed callback ds u).2 = true) := by
  obtain ⟨ts, rest, ds, hts, hpend, hclosed, hout⟩ :=
    rSectionList_sound callback (parserStart text u) (parserStart_clean text u)
  rw [pending_parserStart] at hpend
  refine ⟨ds, ⟨ts, rest, hpend, hts, hclosed⟩, ?_⟩
  cases hflow : rSectionList callback (parserStart text u) with
  | next cp =>
    rw [hflow] at hout
    obtain ⟨hrest, -, hfeed⟩ := hout
    change feed callback ds u = _ at hfeed
    rw [parse_of_next callback hflow, hfeed]
    refine ⟨rfl, fun hret => ⟨⟨ts, cp.lookahead, ?_, ?_, hts⟩, rfl⟩⟩
    · have heof : cp.lookahead.type = .eof := by
        by_contra hne
        rw [if_neg hne] at hret
        cases hret
      rw [hpend, ← hrest, pending, if_pos heof]
    · by_contra hne
      rw [if_neg hne] at hret
      cases hret
  | longjmp cp =>
    rw [hflow] at hout
    rw [parse_of_longjmp callback hflow]
    refine ⟨hout.symm, fun hret => ?_⟩
    cases hret

/-- Definitions completed at the start of the text get their calls, up to the
first that fails. -/
theorem parserStart_accept {text : List Char} {ts rest : List Token} {ds : List ConfDefinition}
    (u : σ) (hts : tokens .none text = ts ++ rest) (hconf : Configuration ts ds)
    (hclosed : Closed ts rest) :
    ∃ cp : A6oConfParser σ, cp.userData = (feed callback ds u).1 ∧
      if (feed callback ds u).2 then
        pending cp = rest ∧ Clean cp ∧
          Resumes callback ts ds cp (rSectionList callback (parserStart text u))
      else rSectionList callback (parserStart text u) = .longjmp cp := by
  have hpending : pending (parserStart text u) = ts ++ rest := by
    rw [pending_parserStart, hts]
  exact rSectionList_accept callback hconf hpending hclosed (parserStart_clean text u)

/-- The parser leaves at a call that fails. -/
theorem parse_failed {text : List Char} {ds : List ConfDefinition} {u : σ}
    (hds : Completed (tokens .none text) ds) (hfeed : ¬ (feed callback ds u).2 = true) :
    a6oConfParserParse callback (some text) u = (-2, (feed callback ds u).1) := by
  obtain ⟨ts, rest, hts, hconf, hclosed⟩ := hds
  obtain ⟨cp, huser, hflow⟩ := parserStart_accept callback u hts hconf hclosed
  rw [if_neg hfeed] at hflow
  rw [parse_of_longjmp callback hflow, huser]

/-- Every completed definition gets its call, as long as none fails. -/
theorem parse_completed {text : List Char} {ds : List ConfDefinition} {u : σ}
    (hds : Completed (tokens .none text) ds) (hfeed : (feed callback ds u).2 = true) :
    ∃ ds', Completed (tokens .none text) (ds ++ ds') ∧
      (a6oConfParserParse callback (some text) u).2 = (feed callback (ds ++ ds') u).1 := by
  obtain ⟨ts, rest, hts, hconf, hclosed⟩ := hds
  obtain ⟨cp, huser, hflow⟩ := parserStart_accept callback u hts hconf hclosed
  rw [if_pos hfeed] at hflow
  obtain ⟨hpend, hclean, hresumes⟩ := hflow
  obtain ⟨ts', rest', ds', hts', hpend', hclosed', hout⟩ :=
    hresumes.sound callback hconf (by rwa [hpend]) hclean
  refine ⟨ds', ⟨ts ++ ts', rest', ?_, hts', hclosed'⟩, ?_⟩
  · rw [hts, ← hpend, hpend', List.append_assoc]
  · rw [feed_append, if_pos hfeed, ← huser]
    cases hrun : rSectionList callback (parserStart text u) with
    | next cp' =>
      rw [hrun] at hout
      rw [parse_of_next callback hrun, hout.2.2]
    | longjmp cp' =>
      rw [hrun] at hout
      rw [parse_of_longjmp callback hrun]
      exact hout.symm

/-- A configuration is accepted, unless a call fails. -/
theorem parse_derivable {text : List Char} {ds : List ConfDefinition} (u : σ)
    (hds : Derivable (tokens .none text) ds) :
    a6oConfParserParse callback (some text) u =
      (if (feed callback ds u).2 then 0 else -2, (feed callback ds u).1) := by
  by_cases hfeed : (feed callback ds u).2 = true
  · obtain ⟨ts, last, hts, heof, hconf⟩ := hds
    have hclosed : Closed ts [last] := fun _ =>
      not_startsWithListSep_of_type heof (by decide) (by decide)
    obtain ⟨cp, huser, hflow⟩ := parserStart_accept callback u hts hconf hclosed
    rw [if_pos hfeed] at hflow
    obtain ⟨hpend, -, hresumes⟩ := hflow
    have hlook : cp.lookahead.type = .eof := by rw [lookahead_of_pending hpend]; exact heof
    have hrun : rConfiguration callback (parserStart text u) = .next cp := by
      have hsections : rSectionList callback cp = .next cp :=
        rSectionList_of_ne callback (by rw [hlook]; decide)
      have hdefinitions : rDefinitionList callback cp = .next cp :=
        rDefinitionList_of_ne callback (by rw [hlook]; decide)
      rw [rConfiguration]
      generalize rSectionList callback (parserStart text u) = flow at hresumes
      cases hresumes with
      | sections => exact hsections
      | definitions _ _ => rw [hdefinitions, Flow.next_bind, hsections]
    rw [parse_of_next callback hrun, if_pos hlook, if_pos hfeed, huser]
  · rw [if_neg hfeed]
    exact parse_failed callback hds.completed hfeed

/-- **The status is 0 just for the configurations whose definitions the
callback takes.** -/
theorem parse_eq_zero_iff (text : List Char) (u : σ) :
    (a6oConfParserParse callback (some text) u).1 = 0 ↔
      ∃ ds, Derivable (tokens .none text) ds ∧ (feed callback ds u).2 = true := by
  constructor
  · intro hret
    obtain ⟨ds, -, -, h⟩ := parse_sound callback text u
    exact ⟨ds, h hret⟩
  · rintro ⟨ds, hds, hfeed⟩
    rw [parse_derivable callback u hds, if_pos hfeed]

/-! ## Callbacks that always return 0 -/

/-- The callback that takes every definition. -/
def returnsZero (f : ConfDefinition → σ → σ) : ConfParserCallback σ :=
  fun sectionName key value u => (0, f ⟨sectionName, key, value⟩ u)

theorem feed_returnsZero (f : ConfDefinition → σ → σ) (ds : List ConfDefinition) (u : σ) :
    feed (returnsZero f) ds u = (ds.foldl (fun u d => f d u) u, true) := by
  induction ds generalizing u with
  | nil => rfl
  | cons d ds ih =>
    rw [feed_cons_of_zero _ rfl, ih]
    rfl

/-- The callback that writes its calls down. -/
def record : ConfParserCallback (List ConfDefinition) :=
  returnsZero fun d log => log ++ [d]

theorem feed_record (ds log : List ConfDefinition) :
    feed record ds log = (log ++ ds, true) := by
  have hfold : ds.foldl (fun log d => log ++ [d]) log = log ++ ds := by
    induction ds generalizing log with
    | nil => simp
    | cons d ds ih => simp [ih]
  rw [record, feed_returnsZero, hfold]

/-- The calls that are written down are the longest completed list. -/
theorem parse_record (text : List Char) :
    ∃ ds, Completed (tokens .none text) ds ∧
      (∀ ds', Completed (tokens .none text) ds' → ds' <+: ds) ∧
      ∀ ds', Derivable (tokens .none text) ds' → ds' = ds := by
  obtain ⟨ds, hds, hlog, -⟩ := parse_sound record text []
  rw [feed_record, List.nil_append] at hlog
  refine ⟨ds, hds, ?_, ?_⟩
  · intro ds' hds'
    obtain ⟨more, -, hlog'⟩ := parse_completed record (u := []) hds' (by rw [feed_record])
    rw [feed_record, hlog, List.nil_append] at hlog'
    exact ⟨more, hlog'.symm⟩
  · intro ds' hds'
    have hlog' := parse_derivable record [] hds'
    rw [feed_record] at hlog'
    exact (congrArg Prod.snd hlog').symm.trans hlog

/-! ## What decides a run -/

/-- The definitions of a text: the longest list that is completed. -/
structure Longest (ts : List Token) (ds : List ConfDefinition) : Prop where
  completed : Completed ts ds
  longest : ∀ ds', Completed ts ds' → ds' <+: ds
  derivable : ∀ ds', Derivable ts ds' → ds' = ds

theorem exists_longest (text : List Char) : ∃ ds, Longest (tokens .none text) ds := by
  obtain ⟨ds, hds, hmax, hall⟩ := parse_record text
  exact ⟨ds, hds, hmax, hall⟩

theorem parse_status (text : List Char) (u : σ) :
    (a6oConfParserParse callback (some text) u).1 = 0 ∨
      (a6oConfParserParse callback (some text) u).1 = -2 := by
  cases hflow : rConfiguration callback (parserStart text u) with
  | next cp =>
    rw [parse_of_next callback hflow]
    split_ifs
    · exact .inl rfl
    · exact .inr rfl
  | longjmp cp =>
    rw [parse_of_longjmp callback hflow]
    exact .inr rfl

/-- The calls are those for the definitions of the text. -/
theorem parse_userData {text : List Char} {ds : List ConfDefinition}
    (h : Longest (tokens .none text) ds) (u : σ) :
    (a6oConfParserParse callback (some text) u).2 = (feed callback ds u).1 := by
  by_cases hfeed : (feed callback ds u).2 = true
  · obtain ⟨more, hmore, huser⟩ := parse_completed callback h.completed hfeed
    have hlen := (h.longest _ hmore).length_le
    rw [List.length_append] at hlen
    have hnil : more = [] := List.length_eq_zero_iff.mp (by omega)
    rw [huser, hnil, List.append_nil]
  · rw [parse_failed callback h.completed hfeed]

theorem parse_accepted {text : List Char} {ds : List ConfDefinition}
    (h : Longest (tokens .none text) ds) (u : σ) :
    (a6oConfParserParse callback (some text) u).1 = 0 ↔
      Derivable (tokens .none text) ds ∧ (feed callback ds u).2 = true := by
  rw [parse_eq_zero_iff]
  constructor
  · rintro ⟨ds', hds', hfeed⟩
    obtain rfl := h.derivable ds' hds'
    exact ⟨hds', hfeed⟩
  · intro hds
    exact ⟨ds, hds⟩

/-- Texts with the same definitions are parsed alike, if both are
configurations or neither is. -/
theorem parse_congr {text text' : List Char}
    (hcompleted : ∀ ds, Completed (tokens .none text) ds ↔ Completed (tokens .none text') ds)
    (hderivable : ∀ ds, Derivable (tokens .none text) ds ↔ Derivable (tokens .none text') ds)
    (u : σ) :
    a6oConfParserParse callback (some text) u = a6oConfParserParse callback (some text') u := by
  obtain ⟨ds, hds⟩ := exists_longest text
  have hds' : Longest (tokens .none text') ds :=
    ⟨(hcompleted ds).mp hds.completed,
      fun ds' h => hds.longest ds' ((hcompleted ds').mpr h),
      fun ds' h => hds.derivable ds' ((hderivable ds').mpr h)⟩
  refine Prod.ext ?_ ?_
  · have hiff : (a6oConfParserParse callback (some text) u).1 = 0 ↔
        (a6oConfParserParse callback (some text') u).1 = 0 := by
      rw [parse_accepted callback hds, parse_accepted callback hds', hderivable]
    by_cases hret : (a6oConfParserParse callback (some text) u).1 = 0
    · rw [hret, hiff.mp hret]
    · rw [(parse_status callback text u).resolve_left hret,
        (parse_status callback text' u).resolve_left (mt hiff.mpr hret)]
  · rw [parse_userData callback hds, parse_userData callback hds']

/-- **The parser accepts exactly its grammar, and calls the callback once
for each completed definition, in order.** The definitions of a text are
the longest list completed at its beginning. -/
theorem parse_accepts_grammar (text : List Char) :
    ∃ ds, Completed (tokens .none text) ds ∧
      (∀ ds', Completed (tokens .none text) ds' → ds' <+: ds) ∧
      (∀ ds', Derivable (tokens .none text) ds' → ds' = ds) ∧
      ∀ (σ : Type) (f : ConfDefinition → σ → σ) (u : σ),
        (a6oConfParserParse (returnsZero f) (some text) u).2 =
            ds.foldl (fun u d => f d u) u ∧
          ((a6oConfParserParse (returnsZero f) (some text) u).1 = 0 ↔
            ∃ ds', Derivable (tokens .none text) ds') := by
  obtain ⟨ds, hds⟩ := exists_longest text
  refine ⟨ds, hds.completed, hds.longest, hds.derivable, ?_⟩
  intro σ f u
  constructor
  · rw [parse_userData (returnsZero f) hds, feed_returnsZero]
  · rw [parse_eq_zero_iff]
    simp only [feed_returnsZero, and_true]

/-! ## Callbacks whose calls are written down -/

/-- A callback that also writes its calls down, a failing one too. -/
def traced : ConfParserCallback (σ × List ConfDefinition) :=
  fun sectionName key value u =>
    let r := callback sectionName key value u.1
    (r.1, r.2, u.2 ++ [⟨sectionName, key, value⟩])

theorem callOn_traced (d : ConfDefinition) (u : σ) (log : List ConfDefinition) :
    callOn (traced callback) d (u, log) =
      ((callOn callback d u).1, (callOn callback d u).2, log ++ [d]) := rfl

/-- The log grows by a beginning of the definitions, by all of them if no
call fails; with any definition there is a call. -/
theorem feed_traced (ds : List ConfDefinition) (u : σ) (log : List ConfDefinition) :
    ∃ called, feed (traced callback) ds (u, log) =
        (((feed callback ds u).1, log ++ called), (feed callback ds u).2) ∧
      ((feed callback ds u).2 = true → called = ds) ∧ (ds ≠ [] → called ≠ []) := by
  induction ds generalizing u log with
  | nil => exact ⟨[], by rw [List.append_nil]; rfl, fun _ => rfl, fun h => absurd rfl h⟩
  | cons d ds ih =>
    by_cases hcall : (callOn callback d u).1 = 0
    · obtain ⟨called, hfeed, hall, -⟩ := ih (callOn callback d u).2 (log ++ [d])
      refine ⟨d :: called, ?_, ?_, fun _ => by simp⟩
      · rw [feed_cons_of_zero (traced callback) (by exact hcall), callOn_traced, hfeed,
          feed_cons_of_zero callback hcall]
        simp
      · intro htrue
        rw [feed_cons_of_zero callback hcall] at htrue
        rw [hall htrue]
    · refine ⟨[d], ?_, ?_, fun _ => by simp⟩
      · rw [feed_cons_of_ne (traced callback) (by exact hcall), callOn_traced,
          feed_cons_of_ne callback hcall]
      · intro htrue
        rw [feed_cons_of_ne callback hcall] at htrue
        cases htrue

theorem feed_traced_snd (ds : List ConfDefinition) (u : σ) (log : List ConfDefinition) :
    (feed (traced callback) ds (u, log)).2 = (feed callback ds u).2 := by
  obtain ⟨called, hfeed, -⟩ := feed_traced callback ds u log
  rw [hfeed]

end Armadito.Conf
