import Markup.Proofs.Yaml.Reading

namespace Markup.Yaml

def Unbroken (written : String) : Prop := ∀ char ∈ written.toList.getLast?, char ≠ '\n'

-- What a lexeme tells about the text that it was cut from. A plain scalar never
-- ends with a line break.
def Lexeme.Stands (text : List Char) : Lexeme → Prop
  | .stop trouble => Uncut text trouble
  | .tag .. => '!' ∈ text
  | .scalar written true => Unbroken written
  | _ => True

namespace Layout

structure Sound (text : List Char) (l : Layout) : Prop where
  within : l.cursor.Within text
  stands : ∀ lexeme ∈ l.lexemes, lexeme.Stands text

def StepSound (text : List Char) (result : Except Trouble Layout) : Prop :=
  match result with
  | .ok l => l.Sound text
  | .error trouble => Uncut text trouble

section steps

variable {text : List Char} {l : Layout} {lexeme : Lexeme}

theorem StepSound.sound {result : Except Trouble Layout} (goes : StepSound text result)
    (made : result = .ok l) : l.Sound text := by
  rwa [made] at goes

theorem StepSound.uncut {result : Except Trouble Layout} (goes : StepSound text result)
    (failed : result = .error trouble) : Uncut text trouble := by
  rwa [failed] at goes

theorem stepSound_if {here : Prop} [Decidable here] {first second : Except Trouble Layout}
    (whole : StepSound text first) (rest : StepSound text second) :
    StepSound text (if here then first else second) := by
  split
  · exact whole
  · exact rest

theorem Sound.add (sound : l.Sound text) (stands : lexeme.Stands text) :
    (l.add lexeme).Sound text := by
  refine ⟨sound.within,fun other inside => ?_⟩
  rcases List.mem_append.mp inside with before | last
  · exact sound.stands other before
  · cases List.mem_singleton.mp last
    exact stands

theorem Sound.inserted (sound : l.Sound text) (lexeme : Lexeme) (stands : lexeme.Stands text)
    (place : Nat) :
    ∀ other ∈ l.lexemes.take place ++ lexeme :: l.lexemes.drop place, other.Stands text := by
  intro other inside
  rcases List.mem_append.mp inside with before | behind
  · exact sound.stands other (List.mem_of_mem_take before)
  · rcases List.mem_cons.mp behind with rfl | later
    · exact stands
    · exact sound.stands other (List.mem_of_mem_drop later)

theorem Sound.keyed (sound : l.Sound text) (keyAllowed : Bool) :
    ({ l with keyAllowed := keyAllowed } : Layout).Sound text := ⟨sound.within,sound.stands⟩

theorem Sound.skip (sound : l.Sound text) (n : Nat) : (l.skip n).Sound text :=
  ⟨sound.within.skip n,sound.stands⟩

theorem Sound.dropStale (sound : l.Sound text) : StepSound text l.dropStale := by
  unfold Layout.dropStale
  split
  · exact uncut_bad
  · exact ⟨sound.within,sound.stands⟩

theorem Sound.dropCandidate (sound : l.Sound text) : StepSound text l.dropCandidate := by
  unfold Layout.dropCandidate
  split
  · exact uncut_bad
  · exact ⟨sound.within,sound.stands⟩

theorem Sound.saveCandidate (sound : l.Sound text) : StepSound text l.saveCandidate := by
  unfold Layout.saveCandidate
  split
  · split
    · rename_i made
      have dropped := sound.dropCandidate.sound made
      exact ⟨dropped.within,dropped.stands⟩
    · rename_i failed
      exact sound.dropCandidate.uncut failed
  · exact sound

theorem unwind_stands (column : Int) (outer : List Int) (lexemes : List Lexeme) (indent : Int)
    (stands : ∀ lexeme ∈ lexemes, lexeme.Stands text) :
    ∀ lexeme ∈ (unwind column lexemes indent outer).1, lexeme.Stands text := by
  induction outer generalizing lexemes indent with
  | nil => exact stands
  | cons next outer ih =>
    unfold unwind
    split
    · refine ih _ _ fun lexeme inside => ?_
      rcases List.mem_append.mp inside with before | last
      · exact stands lexeme before
      · cases List.mem_singleton.mp last
        trivial
    · exact stands

theorem Sound.closeBlocks (sound : l.Sound text) (column : Int) :
    (l.closeBlocks column).Sound text := by
  unfold Layout.closeBlocks
  split
  · exact sound
  · exact ⟨sound.within,unwind_stands column l.outer l.lexemes l.indent sound.stands⟩

theorem Sound.openBlock (sound : l.Sound text) (lexeme : Lexeme) (stands : lexeme.Stands text)
    (place column : Nat) : (l.openBlock lexeme place column).Sound text := by
  unfold Layout.openBlock
  split
  · exact ⟨sound.within,sound.inserted lexeme stands place⟩
  · exact sound

theorem skipGap_within (fuel : Nat) (crossed : Bool) {c : Cursor} (within : c.Within text) :
    (skipGap fuel crossed c).2.Within text := by
  induction fuel generalizing c crossed with
  | zero => exact within
  | succ fuel ih =>
    have behind := within.skipSpaces.comment
    unfold skipGap
    dsimp only
    generalize (if c.skipSpaces.peek = some '#' then c.skipSpaces.skipLine else c.skipSpaces) = next
      at behind ⊢
    split
    · exact ih _ behind.step
    · exact behind

theorem Sound.settle (sound : l.Sound text) : StepSound text l.settle := by
  unfold Layout.settle
  split
  · rename_i failed
    exact sound.dropStale.uncut failed
  · rename_i l made
    have sound := sound.dropStale.sound made
    have begun : (if l.cursor.index = 0 ∧ l.cursor.peek = some '\ufeff' then l.cursor.step
        else l.cursor).Within text := by
      split
      · exact sound.within.step
      · exact sound.within
    have next := skipGap_within l.fuel false begun
    dsimp only
    generalize skipGap l.fuel false _ = gap at next ⊢
    have moved : ({l with cursor := gap.2,keyAllowed := l.keyAllowed || (gap.1 && !l.inFlow)} :
        Layout).Sound text := ⟨next,sound.stands⟩
    split
    · rename_i failed
      exact moved.dropStale.uncut failed
    · rename_i made
      exact (moved.dropStale.sound made).closeBlocks _

theorem Sound.outermost (sound : l.Sound text) : StepSound text l.outermost := by
  have dropped := (sound.closeBlocks (-1)).dropCandidate
  unfold Layout.outermost
  split
  · rename_i made
    exact ⟨(dropped.sound made).within,(dropped.sound made).stands⟩
  · rename_i failed
    exact dropped.uncut failed

theorem Sound.finish (sound : l.Sound text) : StepSound text l.finish := by
  unfold Layout.finish
  split
  · rename_i made
    exact (sound.outermost.sound made).add trivial
  · rename_i failed
    exact sound.outermost.uncut failed

theorem Sound.take (sound : l.Sound text) {found : Found Lexeme}
    (reads : Reads text (Lexeme.Stands text) found) : StepSound text (l.take found) := by
  cases found with
  | error trouble => exact reads
  | ok result => exact Sound.add ⟨reads.2,sound.stands⟩ reads.1

theorem Sound.marker (sound : l.Sound text) (stands : lexeme.Stands text) :
    StepSound text (l.marker lexeme) := by
  unfold Layout.marker
  split
  · rename_i made
    exact ((sound.outermost.sound made).skip 3).add stands
  · rename_i failed
    exact sound.outermost.uncut failed

theorem Sound.directive (sound : l.Sound text) : StepSound text l.directive := by
  unfold Layout.directive
  split
  · rename_i made
    have ended := sound.outermost.sound made
    exact ended.take (Mark.directive_reads (fun _ => trivial) _ ended.within.step)
  · rename_i failed
    exact sound.outermost.uncut failed

theorem Sound.openBracket (sound : l.Sound text) (stands : lexeme.Stands text) :
    StepSound text (l.openBracket lexeme) := by
  unfold Layout.openBracket
  split
  · rename_i made
    have saved := sound.saveCandidate.sound made
    exact Sound.add ⟨saved.within.skip 1,saved.stands⟩ stands
  · rename_i failed
    exact sound.saveCandidate.uncut failed

theorem Sound.closeBracket (sound : l.Sound text) (stands : lexeme.Stands text) :
    StepSound text (l.closeBracket lexeme) := by
  unfold Layout.closeBracket
  split
  · exact uncut_bad
  · exact Sound.add ⟨sound.within.skip 1,sound.stands⟩ stands

theorem Sound.entry (sound : l.Sound text) (stands : lexeme.Stands text) :
    StepSound text (l.entry lexeme) := by
  unfold Layout.entry
  split
  · rename_i made
    exact (((sound.dropCandidate.sound made).skip 1).keyed true).add stands
  · rename_i failed
    exact sound.dropCandidate.uncut failed

theorem Sound.blockEntry (sound : l.Sound text) : StepSound text l.blockEntry := by
  unfold Layout.blockEntry
  split
  · exact sound.entry trivial
  · split
    · exact uncut_bad
    · exact (sound.openBlock .blockSequence trivial _ _).entry trivial

theorem Sound.keyOrValue (sound : l.Sound text) (stands : lexeme.Stands text) :
    StepSound text (l.keyOrValue lexeme) := by
  unfold Layout.keyOrValue
  split
  · exact uncut_bad
  · have opened : (if l.inFlow then l
        else l.openBlock .blockMapping l.lexemes.length l.cursor.column).Sound text := by
      split
      · exact sound
      · exact sound.openBlock .blockMapping trivial _ _
    dsimp only
    generalize (if l.inFlow then l
      else l.openBlock .blockMapping l.lexemes.length l.cursor.column) = next at opened ⊢
    split
    · rename_i made
      exact (((opened.dropCandidate.sound made).skip 1).keyed _).add stands
    · rename_i failed
      exact opened.dropCandidate.uncut failed

theorem Sound.value (sound : l.Sound text) : StepSound text l.value := by
  unfold Layout.value
  split
  · exact sound.keyOrValue trivial
  · rename_i candidate _
    have keyed : ({ l with
        lexemes := l.lexemes.take candidate.place ++ Lexeme.key :: l.lexemes.drop candidate.place
        keyAllowed := false, candidate := none } : Layout).Sound text :=
      ⟨sound.within,sound.inserted .key trivial candidate.place⟩
    refine Sound.add (Sound.skip ?_ 1) trivial
    split
    · exact keyed
    · exact keyed.openBlock .blockMapping trivial _ _

theorem Sound.mark (sound : l.Sound text) {read : Nat → Cursor → Found Lexeme}
    (reads : ∀ fuel {c}, c.Within text → Reads text (Lexeme.Stands text) (read fuel c)) :
    StepSound text (l.mark read) := by
  unfold Layout.mark
  split
  · rename_i made
    have saved := sound.saveCandidate.sound made
    exact (saved.keyed false).take (reads _ saved.within)
  · rename_i failed
    exact sound.saveCandidate.uncut failed

theorem readName_reads {lexeme : String → Lexeme} (stands : ∀ name, (lexeme name).Stands text)
    (fuel : Nat) {c : Cursor} (within : c.Within text) :
    Reads text (Lexeme.Stands text) (readName lexeme fuel c) :=
  reads_map (Mark.name_reads within.step) fun _ _ _ => ⟨stands _,rfl⟩

theorem readQuoted_reads (double : Bool) (fuel : Nat) {c : Cursor} (within : c.Within text) :
    Reads text (Lexeme.Stands text) (readQuoted double fuel c) :=
  reads_map (Scalar.quoted_reads double fuel within.step) fun _ _ _ => ⟨trivial,rfl⟩

theorem Sound.block (sound : l.Sound text) (folded : Bool) : StepSound text (l.block folded) := by
  unfold Layout.block
  split
  · rename_i made
    have dropped := sound.dropCandidate.sound made
    exact (dropped.keyed true).take <|
      reads_map (Scalar.block_reads folded _ _ dropped.within.step) fun _ _ _ => ⟨trivial,rfl⟩
  · rename_i failed
    exact sound.dropCandidate.uncut failed

theorem Sound.plain (sound : l.Sound text) : StepSound text l.plain := by
  unfold Layout.plain
  split
  · rename_i l made
    have saved := sound.saveCandidate.sound made
    have next := Scalar.plainText_within l.inFlow (l.indent + 1) l.fuel [] false saved.within
    refine Sound.add ⟨next,saved.stands⟩ ?_
    have unbroken := Scalar.plainText_unbroken l.inFlow (l.indent + 1) l.fuel [] false l.cursor
    change ∀ char ∈ (String.ofList _).toList.getLast?, char ≠ '\n'
    rw [String.toList_ofList]
    exact unbroken
  · rename_i failed
    exact sound.saveCandidate.uncut failed

theorem Sound.read (sound : l.Sound text) (here : l.cursor.peek = some char) :
    StepSound text (l.read char) := by
  unfold Layout.read
  refine stepSound_if sound.directive ?_
  refine stepSound_if (sound.marker trivial) ?_
  refine stepSound_if (sound.marker trivial) ?_
  refine stepSound_if (sound.openBracket trivial) ?_
  refine stepSound_if (sound.openBracket trivial) ?_
  refine stepSound_if (sound.closeBracket trivial) ?_
  refine stepSound_if (sound.closeBracket trivial) ?_
  refine stepSound_if (sound.entry trivial) ?_
  refine stepSound_if sound.blockEntry ?_
  refine stepSound_if (sound.keyOrValue trivial) ?_
  refine stepSound_if sound.value ?_
  refine stepSound_if (sound.mark (readName_reads fun _ => trivial)) ?_
  refine stepSound_if (sound.mark (readName_reads fun _ => trivial)) ?_
  split
  · rename_i tagged
    have inside : '!' ∈ text := tagged ▸ sound.within.mem here
    exact sound.mark fun fuel _ within => Mark.tag_reads (fun _ _ => inside) fuel within
  refine stepSound_if (sound.block false) ?_
  refine stepSound_if (sound.block true) ?_
  refine stepSound_if (sound.mark (readQuoted_reads false)) ?_
  refine stepSound_if (sound.mark (readQuoted_reads true)) ?_
  exact stepSound_if sound.plain uncut_bad

theorem Sound.stopped (sound : l.Sound text) (uncut : Uncut text trouble) :
    ∀ lexeme ∈ l.stopped trouble, lexeme.Stands text := by
  intro lexeme inside
  rcases List.mem_append.mp inside with before | last
  · exact sound.stands lexeme (List.mem_of_mem_take before)
  · cases List.mem_singleton.mp last
    exact uncut

-- The induction is on the count of steps. What was cut so far stands in the text,
-- and each step goes on from there.
theorem Sound.run (fuel : Nat) (sound : l.Sound text) :
    ∀ lexeme ∈ l.run fuel, lexeme.Stands text := by
  induction fuel generalizing l with
  | zero => exact sound.stopped uncut_bad
  | succ fuel ih =>
    unfold Layout.run
    split
    · rename_i failed
      exact sound.stopped (sound.settle.uncut failed)
    · rename_i made
      have settled := sound.settle.sound made
      split
      · split
        · rename_i failed
          exact sound.stopped (settled.finish.uncut failed)
        · rename_i made
          exact (settled.finish.sound made).stands
      · rename_i here
        split
        · rename_i failed
          exact sound.stopped ((settled.read here).uncut failed)
        · rename_i made
          exact ih ((settled.read here).sound made)

end steps

end Layout

theorem lexemes_stand (text : List Char) : ∀ lexeme ∈ lexemes text, lexeme.Stands text :=
  Layout.Sound.run _ ⟨List.suffix_refl text,by simp [Layout.start]⟩

end Markup.Yaml
