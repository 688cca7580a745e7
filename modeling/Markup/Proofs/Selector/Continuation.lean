import Markup.Proofs.Action
import Markup.Proofs.Selector.Merging

namespace Markup.Selector

def Continues (s : List Char) : Prop :=
  ∀ c ∈ s.head?, Text.isBlank c = true ∨ c = '#' ∨ c = '.' ∨ c = '['

theorem Blanks.append (front : Blanks blank) (back : Blanks more) : Blanks (blank ++ more) := by
  intro c inside
  rcases List.mem_append.mp inside with before | behind
  · exact front c before
  · exact back c behind

theorem Continues.stops (continues : Continues s) : Stops inTag s := by
  intro c rest found
  rcases continues c (by simp [found]) with blank | mark
  · exact blank_not_inTag blank
  · refine opens_not_inTag ?_
    simpa [opensPart,or_assoc] using mark

-- A tag of one letter ends where the continuation starts.
theorem letter_cut (continues : Continues t) (cut : Split ('x' :: t) name parts) :
    ∃ after rest, t = after ++ rest ∧ Blanks after ∧ PartsText rest parts := by
  generalize whole : 'x' :: t = s at cut
  cases cut with
  | @intro before name after rest parts lead tag gap tail =>
    cases tag with
    | @intro c others head inside =>
      cases before with
      | cons d blanks =>
        cases whole
        exact absurd (lead 'x' List.mem_cons_self) (by decide)
      | nil =>
        obtain ⟨rfl,behind⟩ := List.cons.inj whole
        cases others with
        | nil => exact ⟨after,rest,behind,gap,tail⟩
        | cons d others =>
          have tagged := inTag_iff.mpr (inside d List.mem_cons_self)
          rw [continues.stops d _ behind] at tagged
          cases tagged

theorem PartsText.append (front : PartsText s (part :: parts)) (gap : Blanks blank)
    (back : PartsText rest more) : PartsText (s ++ (blank ++ rest)) (part :: parts ++ more) := by
  generalize all : part :: parts = whole at front
  induction front generalizing part parts with
  | nil => cases all
  | @cons text first inner tail others written between later ih =>
    cases others with
    | nil =>
      cases later
      have joined := PartsText.cons written (between.append gap) back
      simpa using joined
    | cons second others =>
      have joined := PartsText.cons written between (ih rfl)
      simpa using joined

theorem Split.extend (cut : Split s name parts) (lead : Blanks before) (gap : Blanks blank)
    (more : PartsText rest further) :
    Split (before ++ s ++ (blank ++ rest)) name (parts ++ further) := by
  cases cut with
  | @intro first name after tail parts start tag follows written =>
    cases parts with
    | nil =>
      cases written
      have joined := Split.intro (lead.append start) tag (follows.append gap) more
      simpa using joined
    | cons part parts =>
      have joined := Split.intro (lead.append start) tag follows (written.append gap more)
      simpa using joined

-- A selector goes on behind its end as if its tag stood there: the tag is that
-- of the first text, the attributes of both are merged. Blanks in front are
-- nothing to it.
theorem selectors_continue (κ : Type) {s t : String} {front back : Selector}
    {before : List Char} (lead : Blanks before) (continues : Continues t.toList)
    (accepted : read s = .ok front) (further : read ("x" ++ t) = .ok back) :
    read (String.ofList before ++ s ++ t) =
        .ok ⟨front.tag,merge (front.attributes ++ back.attributes)⟩ ∧
      ∀ store, parseElement (κ := κ) (String.ofList before ++ s ++ t) store =
        .ok (element ⟨front.tag,merge (front.attributes ++ back.attributes)⟩) store := by
  obtain ⟨name,parts,cut⟩ := accepted_split accepted
  obtain ⟨letter,more,cut'⟩ := accepted_split further
  cases (read_split cut).symm.trans accepted
  cases (read_split cut').symm.trans further
  have one : ("x" ++ t).toList = 'x' :: t.toList := by simp
  rw [one] at cut'
  obtain ⟨blank,rest,tail,gap,written⟩ := letter_cut continues cut'
  have joined := cut.extend lead gap written
  have whole : read (String.ofList before ++ s ++ t) = .ok ⟨String.ofList name,
      merge (merge parts ++ merge more)⟩ := by
    rw [←merge_halves]
    refine read_split ?_
    simpa [←tail] using joined
  refine ⟨whole,fun store => ?_⟩
  simp only [parseElement,whole]
  rfl

theorem spacedCard_continues : Blanks [' '] ∧ Continues " .wide#b".toList ∧
    read "p#a .c" = .ok ⟨"p",[⟨"id","a"⟩,⟨"class","c"⟩]⟩ ∧
    read ("x" ++ " .wide#b") = .ok ⟨"x",[⟨"class","wide"⟩,⟨"id","b"⟩]⟩ ∧
    read (" " ++ "p#a .c" ++ " .wide#b") = .ok ⟨"p",[⟨"id","b"⟩,⟨"class","c wide"⟩]⟩ := by
  have blank : Blanks [' '] := List.forall_mem_singleton.mpr (by decide)
  have continues : Continues " .wide#b".toList := by
    rintro c ⟨⟩
    exact .inl (by decide)
  have front : read "p#a .c" = .ok ⟨"p",[⟨"id","a"⟩,⟨"class","c"⟩]⟩ := by decide +kernel
  have back : read ("x" ++ " .wide#b") = .ok ⟨"x",[⟨"class","wide"⟩,⟨"id","b"⟩]⟩ := by
    decide +kernel
  exact ⟨blank,continues,front,back,(selectors_continue Nat blank continues front back).1⟩

end Markup.Selector
