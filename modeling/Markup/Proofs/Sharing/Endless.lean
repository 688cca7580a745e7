import Markup.Proofs.Sharing.Web

namespace Markup

variable {κ : Type}

namespace Feed

-- Of a sequence without an end its first items, so many of them. One that comes
-- to an end is left as it is.
def cut (length : Nat) : Feed κ → Feed κ
  | .endless id label code =>
    .body id label ((List.range length).map fun place => .item (code place))
  | .chain id first second => .chain id (first.cut length) (second.cut length)
  | .coerce id inner => .coerce id (inner.cut length)
  | feed => feed

def ahead (length : Nat) (cursor : Ident → Cursor) (feed : Feed κ) : List (Piece κ) :=
  (feed.cut length).coming cursor

variable (length : Nat) (feed : Feed κ)

theorem cut_of_ends {feed : Feed κ} (ends : feed.ends = true) : feed.cut length = feed := by
  induction feed with
  | body | items | refused => rfl
  | endless => cases ends
  | chain id first second ih ih' =>
    rw [Feed.ends,Bool.and_eq_true] at ends
    rw [cut,ih ends.1,ih' ends.2]
  | coerce id inner ih => rw [cut,ih ends]

@[simp]
theorem cut_ids : (feed.cut length).ids = feed.ids := by
  induction feed with
  | body | endless | items | refused => rfl
  | chain id first second ih ih' => rw [cut,ids,ids,ih,ih']
  | coerce id inner ih => rw [cut,ids,ids,ih]

@[simp]
theorem cut_ends : (feed.cut length).ends = true := by
  induction feed with
  | body | endless | items | refused => rfl
  | chain id first second ih ih' => rw [cut,ends,ih,ih',Bool.and_self]
  | coerce id inner ih => exact ih

@[simp]
theorem cut_ident : (feed.cut length).ident = feed.ident := by
  cases feed <;> rfl

@[simp]
theorem cut_isChain : (feed.cut length).isChain = feed.isChain := by
  cases feed <;> rfl

theorem cut_parts : (feed.cut length).parts = feed.parts.map (cut length) := by
  induction feed with
  | chain id first second ih ih' => rw [cut,parts,parts,ih,ih',List.map_append]
  | _ => rfl

variable {host : Host κ} {store : Store}

theorem endless_cut {id : Ident} {label : String} {code : Nat → κ}
    (live : ¬(store.cursor id).phase = .closed) (far : (store.cursor id).position < length) :
    ((Feed.endless id label code).cut length).pull host store =
      (Feed.endless id label code).pull host store := by
  have front : ((List.range length).map fun place => Entry.item (code place)).drop
      (store.cursor id).position = .item (code (store.cursor id).position) ::
        ((List.range length).map fun place => Entry.item (code place)).drop
          ((store.cursor id).position + 1) := by
    rw [List.drop_eq_getElem_cons (by simpa using far)]
    simp
  simp only [cut,pull,Action.bind_apply,Action.cursor_apply,live,if_false,front]
  rw [pullEntries_item,pullEntries_item]

-- What a pull comes to is seen in the first items, if these are enough of them.
theorem pull_cut (host : Host κ) (feed : Feed κ) : ∀ store, ∃ bound, ∀ length ≥ bound,
    (feed.cut length).pull host store = feed.pull host store := by
  induction feed with
  | body | items | refused => exact fun store => ⟨0,fun _ _ => rfl⟩
  | endless id label code =>
    intro store
    by_cases closed : (store.cursor id).phase = .closed
    · exact ⟨0,fun length _ => by rw [cut,pull_closed host closed,pull_closed host closed]⟩
    · exact ⟨(store.cursor id).position + 1,fun length far => endless_cut length closed far⟩
  | chain id first second ih ih' =>
    intro store
    have further : ∀ store, ∃ bound, ∀ length ≥ bound,
        pullSecond host id (second.cut length) store = pullSecond host id second store := by
      intro store
      obtain ⟨bound,same⟩ := ih' store
      exact ⟨bound,fun length far => by rw [pullSecond_eq,pullSecond_eq,same length far]⟩
    by_cases closed : (store.cursor id).phase = .closed
    · exact ⟨0,fun length _ => by rw [cut,pull_closed host closed,pull_closed host closed]⟩
    · by_cases unread : (store.cursor id).position = 0
      · obtain ⟨bound,same⟩ := ih store
        cases pulled : first.pull host store with
        | error fault after =>
          refine ⟨bound,fun length far => ?_⟩
          rw [cut,chain_first closed unread,chain_first closed unread,same length far,pulled]
        | ok found after =>
          obtain ⟨bound',same'⟩ := further (after.moved id ⟨1,.ready⟩)
          refine ⟨max bound bound',fun length far => ?_⟩
          rw [cut,chain_first closed unread,chain_first closed unread,same length (by omega),pulled]
          cases found with
          | some value => rfl
          | none => exact same' length (by omega)
      · obtain ⟨bound,same⟩ := further store
        refine ⟨bound,fun length far => ?_⟩
        rw [cut,chain_second closed unread,chain_second closed unread,same length far]
  | coerce id inner ih =>
    intro store
    by_cases closed : (store.cursor id).phase = .closed
    · exact ⟨0,fun length _ => by rw [cut,pull_closed host closed,pull_closed host closed]⟩
    · obtain ⟨bound,same⟩ := ih store
      exact ⟨bound,fun length far => by rw [cut,coerce_pull closed,coerce_pull closed,same length far]⟩

end Feed

end Markup
