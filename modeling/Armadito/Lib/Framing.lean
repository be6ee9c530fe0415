import Mathlib.Data.List.Basic
import Mathlib.Data.List.Forall2

/-!
# Lib.Framing

Messages written to a stream one after the other, each as its text with a
separator behind it, and a reader that decodes what one read returns and
keeps nothing for the next one. A read returns any piece of the stream. The
reader gets the messages back when every read returns one message, and only
then.
-/

namespace Framing

variable {α μ : Type*} {sep : List α} {text : μ → List α} {decode : List α → Option μ}

/-- A decoder that takes the first value of its input, on the pieces of one
message: separators before the text are skipped, what follows it is ignored,
and a text that is cut does not stand for the message. -/
structure Decodes (sep : List α) (text : μ → List α) (decode : List α → Option μ) (m : μ) :
    Prop where
  nonempty : text m ≠ []
  whole : ∀ before after, before ⊆ sep → decode (before ++ text m ++ after) = some m
  cutEnd : ∀ before piece cut, before ⊆ sep → cut ≠ [] → text m = piece ++ cut →
    decode (before ++ piece) = none
  cutStart : ∀ cut piece after, cut ≠ [] → text m ++ sep = cut ++ piece ++ after →
    decode piece ≠ some m

/-- The stream of some messages. -/
def frames (sep : List α) (text : μ → List α) (ms : List μ) : List α :=
  ms.flatMap fun m => text m ++ sep

/-- A read returns one message, up to separators around it. -/
def OneMessage (sep : List α) (text : μ → List α) (chunk : List α) (m : μ) : Prop :=
  ∃ before after, before ⊆ sep ∧ after ⊆ sep ∧ chunk = before ++ text m ++ after

theorem frames_cons (m : μ) (ms : List μ) :
    frames sep text (m :: ms) = (text m ++ sep) ++ frames sep text ms := rfl

theorem Decodes.ne_nil {m : μ} (h : Decodes sep text decode m) {chunk : List α}
    (hdecode : decode chunk = some m) : chunk ≠ [] := by
  rintro rfl
  have hnone := h.cutEnd [] [] (text m) (List.nil_subset _) h.nonempty rfl
  rw [List.append_nil] at hnone
  rw [hnone] at hdecode
  cases hdecode

theorem Decodes.oneMessage {m : μ} (h : Decodes sep text decode m) {chunk : List α}
    (hone : OneMessage sep text chunk m) : decode chunk = some m := by
  obtain ⟨before, after, hbefore, -, rfl⟩ := hone
  exact h.whole before after hbefore

/-- A stream that has lost its beginning does not give all its messages. -/
theorem not_decoded_of_lost {ms : List μ} (hms : ∀ m ∈ ms, Decodes sep text decode m) :
    ∀ {lost : List α} {chunks : List (List α)}, lost ≠ [] →
      frames sep text ms = lost ++ chunks.flatten → chunks.map decode ≠ ms.map some := by
  induction ms with
  | nil =>
    intro lost chunks hlost hstream _
    exact hlost (List.append_eq_nil_iff.mp hstream.symm).1
  | cons m ms ih =>
    intro lost chunks hlost hstream hdecoded
    have hm := hms m List.mem_cons_self
    cases chunks with
    | nil => cases hdecoded
    | cons chunk chunks =>
      obtain ⟨hchunk, hchunks⟩ := List.cons.inj hdecoded
      have hne := hm.ne_nil hchunk
      have hrest := @ih fun m' hm' => hms m' (List.mem_cons_of_mem m hm')
      rw [frames_cons, List.flatten_cons] at hstream
      rcases List.append_eq_append_iff.mp hstream with
        ⟨lost', -, hframes⟩ | ⟨tail, hframe, hstream⟩
      · -- the whole message is lost, and what the chunk has of the others
        rw [← List.append_assoc] at hframes
        exact hrest (by simp [hne]) hframes hchunks
      · rcases List.append_eq_append_iff.mp hstream with
          ⟨after, htail, -⟩ | ⟨lost', htail, hframes⟩
        · -- the chunk is a piece of the message
          rw [htail, ← List.append_assoc] at hframe
          exact hm.cutStart lost chunk after hlost hframe hchunk
        · by_cases hlost' : lost' = []
          · subst hlost'
            rw [List.append_nil] at htail
            rw [← htail, ← List.append_nil (lost ++ chunk)] at hframe
            exact hm.cutStart lost chunk [] hlost hframe hchunk
          · exact hrest hlost' hframes hchunks

/-- Behind a piece of a separator, the messages come one in each chunk. -/
theorem oneMessage_of_decoded {ms : List μ} (hms : ∀ m ∈ ms, Decodes sep text decode m) :
    ∀ {pending : List α} {chunks : List (List α)}, pending ⊆ sep →
      chunks.flatten = pending ++ frames sep text ms → chunks.map decode = ms.map some →
      List.Forall₂ (OneMessage sep text) chunks ms := by
  induction ms with
  | nil =>
    intro pending chunks _ _ hdecoded
    rw [List.map_eq_nil_iff.mp hdecoded]
    exact .nil
  | cons m ms ih =>
    intro pending chunks hpending hstream hdecoded
    have hm := hms m List.mem_cons_self
    have hrest := fun m' hm' => hms m' (List.mem_cons_of_mem m hm')
    cases chunks with
    | nil => cases hdecoded
    | cons chunk chunks =>
      obtain ⟨hchunk, hchunks⟩ := List.cons.inj hdecoded
      have hnext : ∀ {pending' : List α} {after : List α}, after ⊆ sep → pending' ⊆ sep →
          chunk = pending ++ text m ++ after →
          chunks.flatten = pending' ++ frames sep text ms →
          List.Forall₂ (OneMessage sep text) (chunk :: chunks) (m :: ms) :=
        fun hafter hpending' heq hflat =>
          .cons ⟨pending, _, hpending, hafter, heq⟩ (ih hrest hpending' hflat hchunks)
      rw [frames_cons, List.flatten_cons, ← List.append_assoc, ← List.append_assoc,
        List.append_assoc (pending ++ text m)] at hstream
      rcases List.append_eq_append_iff.mp hstream with
        ⟨cut, hcut, hflat⟩ | ⟨after, heq, hflat⟩
      · by_cases hwhole : cut = []
        · subst hwhole
          rw [List.append_nil] at hcut
          refine hnext (List.nil_subset sep) (List.Subset.refl sep) ?_ hflat
          rw [List.append_nil, hcut]
        · -- the end of the text is missing
          rcases List.append_eq_append_iff.mp hcut with ⟨piece, rfl, htext⟩ | ⟨skip, rfl, -⟩
          · rw [hm.cutEnd pending piece cut hpending hwhole htext] at hchunk
            cases hchunk
          · have hskip := List.append_subset.mp hpending
            have hnone := hm.cutEnd chunk [] (text m) hskip.1 hm.nonempty rfl
            rw [List.append_nil, hchunk] at hnone
            cases hnone
      · rcases List.append_eq_append_iff.mp hflat with ⟨lost, rfl, hframes⟩ | ⟨rest, hsep, hframes⟩
        · by_cases hlost : lost = []
          · subst hlost
            rw [List.append_nil] at heq
            exact hnext (List.Subset.refl sep) (List.nil_subset sep) heq hframes.symm
          · exact absurd hchunks (not_decoded_of_lost hrest hlost hframes)
        · have hsub : after ++ rest ⊆ sep := hsep ▸ List.Subset.refl _
          exact hnext (List.append_subset.mp hsub).1 (List.append_subset.mp hsub).2 heq hframes

/-- **The messages of a stream are decoded if and only if every read returns
one of them.** -/
theorem decoded_iff {ms : List μ} (hms : ∀ m ∈ ms, Decodes sep text decode m)
    {chunks : List (List α)} (hstream : chunks.flatten = frames sep text ms) :
    chunks.map decode = ms.map some ↔ List.Forall₂ (OneMessage sep text) chunks ms := by
  constructor
  · intro hdecoded
    exact oneMessage_of_decoded hms (List.nil_subset sep) hstream hdecoded
  · intro hone
    clear hstream
    induction hone with
    | nil => rfl
    | cons h _ ih =>
      rw [List.map_cons, List.map_cons, (hms _ List.mem_cons_self).oneMessage h,
        ih fun m hm => hms m (List.mem_cons_of_mem _ hm)]

end Framing
