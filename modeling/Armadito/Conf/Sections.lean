import Armadito.Conf.Accept

/-!
# Conf.Sections

The section level of the parser, and the parser as a whole.

When the pending tokens begin with a section list, the parser gets to its
end with the calls for its definitions made, and is left there inside the
last section (`Resumes`): the definition list may still go on.
-/

namespace Armadito.Conf

variable {σ : Type} {cp : A6oConfParser σ}

/-! ## Lists put together -/

theorem DefinitionList.append {sect : CString} {ts ts' : List Token}
    {ds ds' : List ConfDefinition} (h : DefinitionList sect ts ds)
    (h' : DefinitionList sect ts' ds') : DefinitionList sect (ts ++ ts') (ds ++ ds') := by
  induction h with
  | empty => exact h'
  | cons hdef _ ih =>
    rw [List.append_assoc]
    exact .cons hdef ih

theorem SectionList.append {ts ts' : List Token} {ds ds' : List ConfDefinition}
    (h : SectionList ts ds) (h' : SectionList ts' ds') :
    SectionList (ts ++ ts') (ds ++ ds') := by
  induction h with
  | empty => exact h'
  | cons hsect _ ih =>
    rw [List.append_assoc, List.append_assoc]
    exact .cons hsect ih

/-- The last section of the list may take more definitions. -/
def Extends (sect : CString) (ts : List Token) (ds : List ConfDefinition) : Prop :=
  ∀ ⦃ts' : List Token⦄ ⦃ds' : List ConfDefinition⦄, DefinitionList sect ts' ds' →
    SectionList (ts ++ ts') (ds ++ ds')

theorem Extends.of_section {left name right : Token} {ts : List Token}
    {ds : List ConfDefinition} (hleft : left.type = .leftBrace) (hname : name.type = .string)
    (hright : right.type = .rightBrace) (hdefs : DefinitionList (osStrdup name.text) ts ds) :
    Extends (osStrdup name.text) (left :: name :: right :: ts) ds := by
  intro ts' ds' h'
  have h := SectionList.cons (.mk hleft hname hright (hdefs.append h')) .empty
  simpa using h

theorem Extends.append {sect : CString} {ts₀ ts : List Token} {ds₀ ds : List ConfDefinition}
    (h₀ : SectionList ts₀ ds₀) (h : Extends sect ts ds) :
    Extends sect (ts₀ ++ ts) (ds₀ ++ ds) := by
  intro ts' ds' h'
  rw [List.append_assoc, List.append_assoc]
  exact h₀.append (h h')

variable (callback : ConfParserCallback σ)

/-! ## Section heads -/

theorem rSectionHead_accept {left name right : Token} {ts : List Token}
    (hleft : left.type = .leftBrace) (hname : name.type = .string)
    (hright : right.type = .rightBrace) (h : pending cp = left :: name :: right :: ts)
    (hcp : Clean cp) :
    ∃ cp', rSectionHead cp = .next cp' ∧ pending cp' = ts ∧ cp'.userData = cp.userData ∧
      Within (osStrdup name.text) cp' := by
  obtain ⟨hnext₁, hpend₁⟩ := tokenAccept_pending _ h hleft (by decide)
  have hlook := lookahead_of_pending hpend₁
  obtain ⟨hnext₂, hpend₂⟩ := tokenAccept_pending
    { advance cp .leftBrace with
      currentSection := some (osStrdup (advance cp .leftBrace).lookahead.text) }
    hpend₁ hname (by decide)
  obtain ⟨hnext₃, hpend₃⟩ := tokenAccept_pending _ hpend₂ hright (by decide)
  refine ⟨_, ?_, hpend₃, rfl, ⟨⟨hcp.type, hcp.string, hcp.list⟩, ?_⟩⟩
  · rw [rSectionHead, hnext₁, Flow.next_bind, rSectionName, hnext₂, Flow.next_bind, hnext₃]
  · rw [← hlook]
    rfl

theorem rSectionHead_quiet : Quiet (@rSectionHead σ) := by
  have hname : Quiet (@rSectionName σ) := fun cp => tokenAccept_quiet _ _
  exact (tokenAccept_quiet _).bind (hname.bind (tokenAccept_quiet _))

/-- The tokens of a section head, or the function leaves. -/
theorem rSectionHead_eq_next {cp' : A6oConfParser σ} (h : rSectionHead cp = .next cp') :
    ∃ left name right, left.type = .leftBrace ∧ name.type = .string ∧
      right.type = .rightBrace ∧ pending cp = left :: name :: right :: pending cp' := by
  obtain ⟨cp₁, hleft, h⟩ := Flow.bind_eq_next.mp h
  obtain ⟨cp₂, hname, hright⟩ := Flow.bind_eq_next.mp h
  obtain ⟨htype₁, -, h₁⟩ := tokenAccept_eq_next (by decide) hleft
  obtain ⟨htype₂, -, h₂⟩ := tokenAccept_eq_next (by decide) hname
  obtain ⟨htype₃, -, h₃⟩ := tokenAccept_eq_next (by decide) hright
  have h₂' : pending cp₁ = cp₁.lookahead :: pending cp₂ := h₂
  exact ⟨_, _, _, htype₁, htype₂, htype₃, by rw [h₁, h₂', h₃]⟩

/-! ## Section lists -/

theorem rSectionList_of_leftBrace (h : cp.lookahead.type = .leftBrace) :
    rSectionList callback cp =
      (rSectionHead cp).bind fun cp =>
        (rDefinitionList callback cp).bind (rSectionList callback) := by
  rw [rSectionList, if_pos h, ← Flow.bind_assoc]
  show _ = (rSection callback cp).bind (rSectionList callback)
  split
  · next hsect => rw [hsect, Flow.next_bind]
  · next hsect => rw [hsect, Flow.longjmp_bind]

theorem rSectionList_of_ne (h : cp.lookahead.type ≠ .leftBrace) :
    rSectionList callback cp = .next cp := by
  rw [rSectionList, if_neg h]

theorem rDefinitionList_of_ne (h : cp.lookahead.type ≠ .string) :
    rDefinitionList callback cp = .next cp := by
  rw [rDefinitionList, if_neg h]

/-- What is left to do behind a section list: look for another section, and
before that for more definitions of the last one. -/
inductive Resumes (ts : List Token) (ds : List ConfDefinition) (cp : A6oConfParser σ) :
    Flow σ → Prop where
  | sections : Resumes ts ds cp (rSectionList callback cp)
  | definitions {sect : CString} (hwithin : Within sect cp) (hext : Extends sect ts ds) :
      Resumes ts ds cp ((rDefinitionList callback cp).bind (rSectionList callback))

theorem Resumes.prepend {ts₀ ts : List Token} {ds₀ ds : List ConfDefinition} {flow : Flow σ}
    (h₀ : SectionList ts₀ ds₀) (h : Resumes callback ts ds cp flow) :
    Resumes callback (ts₀ ++ ts) (ds₀ ++ ds) cp flow := by
  cases h with
  | sections => exact .sections
  | definitions hwithin hext => exact .definitions hwithin (hext.append h₀)

/-- Behind a section list the first token starts no definition, unless the
last section takes it. -/
theorem rSectionList_accept {ts : List Token} {ds : List ConfDefinition}
    (hts : SectionList ts ds) :
    ∀ {cp : A6oConfParser σ} {rest : List Token}, pending cp = ts ++ rest →
      Closed ts rest → Clean cp →
      ∃ cp', cp'.userData = (feed callback ds cp.userData).1 ∧
        if (feed callback ds cp.userData).2 then
          pending cp' = rest ∧ Clean cp' ∧
            Resumes callback ts ds cp' (rSectionList callback cp)
        else rSectionList callback cp = .longjmp cp' := by
  induction hts with
  | empty =>
    intro cp rest h _ hcp
    exact ⟨cp, rfl, h, hcp, .sections⟩
  | @cons ts ts' ds ds' hsect hrest ih =>
    intro cp rest h hclosed hcp
    have hsections : SectionList ts ds := by simpa using SectionList.cons hsect .empty
    cases hsect with
    | @mk left name right ts _ hleft hname hright hdefs =>
      rw [List.append_assoc] at h
      obtain ⟨cp₁, hhead, hpend₁, huser₁, hwithin₁⟩ :=
        rSectionHead_accept hleft hname hright h hcp
      have hclosed₀ : Closed ([left, name, right] ++ ts) (ts' ++ rest) :=
        hclosed.left fun _ => hrest.not_startsWithListSep
      have hclosed₁ : Closed ts (ts' ++ rest) := hclosed₀.right
      obtain ⟨cp₂, huser₂, hflow⟩ :=
        rDefinitionList_accept callback hdefs hpend₁ hclosed₁ hwithin₁
      have hgo : rSectionList callback cp =
          (rDefinitionList callback cp₁).bind (rSectionList callback) := by
        rw [rSectionList_of_leftBrace callback
          (by rw [lookahead_of_pending h]; exact hleft), hhead, Flow.next_bind]
      rw [huser₁] at huser₂ hflow
      rw [feed_append]
      by_cases hfeed : (feed callback ds cp.userData).2 = true
      · rw [if_pos hfeed] at hflow
        obtain ⟨hlist, hpend₂, hwithin₂⟩ := hflow
        rw [if_pos hfeed, ← huser₂]
        cases hrest with
        | empty =>
          -- the last section: its definition list goes on at `cp₂`
          refine ⟨cp₂, rfl, hpend₂, hwithin₂.clean, ?_⟩
          rw [hgo, hlist, List.append_nil, List.append_nil]
          exact .definitions hwithin₂ (Extends.of_section hleft hname hright hdefs)
        | cons hsect' hrest' =>
          -- a `[` ends the definition list, and the next section follows
          have hlook : cp₂.lookahead.type = .leftBrace := by
            cases hsect' with
            | mk hleft' _ _ _ => rw [lookahead_of_pending hpend₂]; exact hleft'
          obtain ⟨cp', huser', hflow'⟩ := ih hpend₂ hclosed.right hwithin₂.clean
          have heq : rSectionList callback cp = rSectionList callback cp₂ := by
            rw [hgo, hlist, rDefinitionList_of_ne callback (by rw [hlook]; decide),
              Flow.next_bind]
          refine ⟨cp', huser', ?_⟩
          rw [heq]
          split at hflow'
          · next hfeed' =>
            rw [if_pos hfeed']
            exact ⟨hflow'.1, hflow'.2.1, hflow'.2.2.prepend callback hsections⟩
          · next hfeed' =>
            rw [if_neg hfeed']
            exact hflow'
      · rw [if_neg hfeed] at hflow
        rw [if_neg hfeed]
        refine ⟨cp₂, huser₂, ?_⟩
        rw [if_neg hfeed, hgo, hflow, Flow.longjmp_bind]

/-- A section is taken up to the end of its definition list, or not even
its head. -/
theorem rSection_sound (hcp : Clean cp) :
    (∃ ts rest ds, SectionRule ts ds ∧ pending cp = ts ++ rest ∧ Closed ts rest ∧
        (rSection callback cp).Outcome rest (feed callback ds cp.userData)) ∨
      ∃ cp', rSection callback cp = .longjmp cp' ∧ cp'.userData = cp.userData := by
  cases hhead : rSectionHead cp with
  | next cp₁ =>
    obtain ⟨left, name, right, hleft, hname, hright, hpend⟩ := rSectionHead_eq_next hhead
    obtain ⟨cp₁', hhead', -, huser, hwithin⟩ :=
      rSectionHead_accept hleft hname hright hpend hcp
    rw [hhead] at hhead'
    cases hhead'
    obtain ⟨ts, rest, ds, hdefs, hrest, hclosed, hout⟩ :=
      rDefinitionList_sound callback _ cp₁ hwithin
    refine .inl ⟨left :: name :: right :: ts, rest, ds, .mk hleft hname hright hdefs, ?_, ?_, ?_⟩
    · rw [hpend, hrest]
      rfl
    · have hhead : Closed [left, name, right] (ts ++ rest) :=
        closed_concat (by rw [hright]; decide) [left, name] _
      exact hhead.append hclosed
    · rwa [rSection, hhead, Flow.next_bind, ← huser]
  | longjmp cp₁ =>
    refine .inr ⟨cp₁, ?_, rSectionHead_quiet.longjmp hhead⟩
    rw [rSection, hhead, Flow.longjmp_bind]

/-- The definitions the parser makes calls for are those of a section list
at the front of the pending tokens. -/
theorem rSectionList_sound (cp : A6oConfParser σ) :
    Clean cp →
      ∃ ts rest ds, SectionList ts ds ∧ pending cp = ts ++ rest ∧ Closed ts rest ∧
        (rSectionList callback cp).Outcome rest (feed callback ds cp.userData) := by
  fun_induction rSectionList callback cp with
  | case1 cp hleft cp₁ hsect ih =>
    intro hcp
    rcases rSection_sound callback hcp with
      ⟨ts, rest, ds, hts, hpend, hclosed, hout⟩ | ⟨cp', hjump, -⟩
    · rw [hsect] at hout
      obtain ⟨hpend₁, hclean₁, hfeed⟩ := hout
      obtain ⟨ts', rest', ds', hts', hpend', hclosed', hout'⟩ := ih hclean₁
      refine ⟨ts ++ ts', rest', ds ++ ds', .cons hts hts', ?_, ?_, ?_⟩
      · rw [hpend, ← hpend₁, hpend', List.append_assoc]
      · rw [← hpend₁, hpend'] at hclosed
        exact hclosed.append hclosed'
      · rwa [feed_append, hfeed, if_pos rfl]
    · rw [hsect] at hjump
      cases hjump
  | case2 cp hleft cp₁ hsect =>
    intro hcp
    rcases rSection_sound callback hcp with
      ⟨ts, rest, ds, hts, hpend, hclosed, hout⟩ | ⟨cp', hjump, huser⟩
    · rw [hsect] at hout
      refine ⟨ts, rest, ds, ?_, hpend, hclosed, hout⟩
      simpa using SectionList.cons hts .empty
    · rw [hsect] at hjump
      cases hjump
      exact ⟨[], pending cp, [], .empty, rfl, closed_nil _, huser.symm⟩
  | case3 cp hleft =>
    intro hcp
    exact ⟨[], pending cp, [], .empty, rfl, closed_nil _, rfl, hcp, rfl⟩

/-- However the parser goes on behind a section list, what it makes calls
for still extends that list. -/
theorem Resumes.sound {ts : List Token} {ds : List ConfDefinition} {flow : Flow σ}
    (h : Resumes callback ts ds cp flow) (hts : SectionList ts ds)
    (hclosed : Closed ts (pending cp)) (hcp : Clean cp) :
    ∃ ts' rest ds', SectionList (ts ++ ts') (ds ++ ds') ∧ pending cp = ts' ++ rest ∧
      Closed (ts ++ ts') rest ∧ flow.Outcome rest (feed callback ds' cp.userData) := by
  cases h with
  | sections =>
    obtain ⟨ts', rest, ds', hts', hpend, hclosed', hout⟩ := rSectionList_sound callback cp hcp
    rw [hpend] at hclosed
    exact ⟨ts', rest, ds', hts.append hts', hpend, hclosed.append hclosed', hout⟩
  | definitions hwithin hext =>
    obtain ⟨ts₁, rest₁, ds₁, hts₁, hpend₁, hclosed₁, hout₁⟩ :=
      rDefinitionList_sound callback _ cp hwithin
    rw [hpend₁] at hclosed
    cases hlist : rDefinitionList callback cp with
    | longjmp cp₁ =>
      rw [hlist] at hout₁
      exact ⟨ts₁, rest₁, ds₁, hext hts₁, hpend₁, hclosed.append hclosed₁, hout₁⟩
    | next cp₁ =>
      rw [hlist] at hout₁
      obtain ⟨hpend', hclean, hfeed⟩ := hout₁
      obtain ⟨ts₂, rest, ds₂, hts₂, hpend₂, hclosed₂, hout₂⟩ :=
        rSectionList_sound callback cp₁ hclean
      rw [← hpend', hpend₂] at hclosed hclosed₁ hpend₁
      refine ⟨ts₁ ++ ts₂, rest, ds₁ ++ ds₂, ?_, ?_, ?_, ?_⟩
      · rw [← List.append_assoc, ← List.append_assoc]
        exact (hext hts₁).append hts₂
      · rw [hpend₁, List.append_assoc]
      · rw [← List.append_assoc]
        exact (hclosed.append hclosed₁).append hclosed₂
      · rw [feed_append, hfeed, if_pos rfl]
        exact hout₂

end Armadito.Conf
