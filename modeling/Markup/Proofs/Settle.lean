import Markup.Proofs.Feed
import Markup.Proofs.Tree

namespace Markup

variable {κ : Type}

inductive Job (κ : Type) where
  | node (node : Node κ)
  | nodes (nodes : List (Node κ))
  | feed (feed : Feed κ)

def leafTree : Node κ → Option Tree
  | .text value => some (.text value)
  | .raw value => some (.raw value)
  | .comment value => some (.comment value)
  | _ => none

inductive Names (host : Host κ) (token : Token) :
    List (Attr κ) → Store → Except Fault (List (String × String)) → Store → Prop where
  | nil : Names host token [] store (.ok []) store
  | cons (done : attr.drive host token store = .ok pair middle)
      (live : middle.cancelled token = false)
      (more : Names host token rest middle result after) :
      Names host token (attr :: rest) store (result.map (pair :: ·)) after
  | broke (failed : attr.drive host token store = .error fault after) :
      Names host token (attr :: rest) store (.error fault) after

-- Settling without writing: every deferred part is driven in document order and
-- replaced by what it gives, the attributes of an element before its children
-- and the items of a sequence one by one. The first part that fails ends it.
-- Nothing here looks at the token, and no part that succeeds may have cancelled
-- it. What a deferred node turned out to be is put into the journal, for bodies
-- may read there.
inductive Settles (host : Host κ) (token : Token) :
    Job κ → Store → Except Fault (List Tree) → Store → Prop where
  | leaf (text : leafTree node = some tree) :
      Settles host token (.node node) store (.ok [tree]) store
  | element (named : Names host token attributes store (.ok pairs) middle)
      (inside : Settles host token (.nodes children) middle result after) :
      Settles host token (.node (.element tag attributes children)) store
        (result.map fun kids => [.element tag pairs kids]) after
  | elementBroke (failed : Names host token attributes store (.error fault) after) :
      Settles host token (.node (.element tag attributes children)) store (.error fault) after
  | fragment (inside : Settles host token (.nodes children) store result after) :
      Settles host token (.node (.fragment children)) store
        (result.map fun kids => [.fragment kids]) after
  | deferred (done : pending.drive host token store = .ok node middle)
      (live : middle.cancelled token = false)
      (more : Settles host token (.node node) (middle.noted (.resolved node.kind)) result after) :
      Settles host token (.node (.deferred pending)) store result after
  | deferredBroke (failed : pending.drive host token store = .error fault after) :
      Settles host token (.node (.deferred pending)) store (.error fault) after
  | sequence (inside : Settles host token (.feed feed) store result after) :
      Settles host token (.node (.sequence feed)) store
        (result.map fun items => [.series items]) after
  | foreign : Settles host token (.node (.foreign value)) store
      (.error (.unrenderable value.kind)) store
  | nil : Settles host token (.nodes []) store (.ok []) store
  | cons (first : Settles host token (.node node) store (.ok found) middle)
      (more : Settles host token (.nodes rest) middle result after) :
      Settles host token (.nodes (node :: rest)) store (result.map (found ++ ·)) after
  | cut (first : Settles host token (.node node) store (.error fault) after) :
      Settles host token (.nodes (node :: rest)) store (.error fault) after
  | ended (given : feed.pull host store = .ok none after) (live : after.cancelled token = false) :
      Settles host token (.feed feed) store (.ok []) after
  | item (given : feed.pull host store = .ok (some node) middle)
      (live : middle.cancelled token = false)
      (here : Settles host token (.node node) middle (.ok found) later)
      (more : Settles host token (.feed feed) later result after) :
      Settles host token (.feed feed) store (result.map (found ++ ·)) after
  | itemCut (given : feed.pull host store = .ok (some node) middle)
      (live : middle.cancelled token = false)
      (here : Settles host token (.node node) middle (.error fault) after) :
      Settles host token (.feed feed) store (.error fault) after
  | pullBroke (failed : feed.pull host store = .error fault after) :
      Settles host token (.feed feed) store (.error fault) after

variable {host : Host κ} {token : Token} {store after : Store} {job : Job κ}
  {result : Except Fault (List Tree)}

def Job.Counts : Job κ → List Tree → Prop
  | .node _,trees => trees.length = 1
  | .nodes children,trees => trees.length = children.length
  | .feed _,_ => True

theorem settles_counts (settles : Settles host token job store result after) :
    ∀ trees, result = .ok trees → job.Counts trees := by
  induction settles with
  | leaf text =>
    rintro _ ⟨⟩
    rfl
  | nil =>
    rintro _ ⟨⟩
    rfl
  | ended | item => exact fun _ _ => trivial
  | elementBroke | deferredBroke | foreign | cut | itemCut | pullBroke =>
    intro trees same
    cases same
  | @element attributes store pairs middle children result after tag named inside ih =>
    cases result <;> rintro _ ⟨⟩
    rfl
  | @fragment children store result after inside ih =>
    cases result <;> rintro _ ⟨⟩
    rfl
  | @sequence feed store result after inside ih =>
    cases result <;> rintro _ ⟨⟩
    rfl
  | deferred done live more ih => exact ih
  | @cons node store found middle rest result after first more ihFirst ihMore =>
    cases result with
    | error fault => rintro _ ⟨⟩
    | ok trees =>
      rintro _ ⟨⟩
      have one := ihFirst found rfl
      have others := ihMore trees rfl
      simp_all [Job.Counts,Nat.add_comm]

theorem names_unique {attributes : List (Attr κ)} {pairs : Except Fault (List (String × String))}
    (names : Names host token attributes store pairs after) :
    ∀ {pairs' after'}, Names host token attributes store pairs' after' →
      pairs' = pairs ∧ after' = after := by
  induction names with
  | nil =>
    intro _ _ other
    cases other
    exact ⟨rfl,rfl⟩
  | cons done live more ih =>
    intro _ _ other
    cases other with
    | cons done' live' more' =>
      cases done.symm.trans done'
      obtain ⟨rfl,rfl⟩ := ih more'
      exact ⟨rfl,rfl⟩
    | broke failed => cases done.symm.trans failed
  | broke failed =>
    intro _ _ other
    cases other with
    | cons done => cases failed.symm.trans done
    | broke failed' =>
      cases failed.symm.trans failed'
      exact ⟨rfl,rfl⟩

theorem settles_unique (settles : Settles host token job store result after) :
    ∀ {result' after'}, Settles host token job store result' after' →
      result' = result ∧ after' = after := by
  induction settles with
  | leaf text =>
    intro _ _ other
    cases other with
    | leaf text' =>
      cases text.symm.trans text'
      exact ⟨rfl,rfl⟩
    | _ => cases text
  | element named inside ih =>
    intro _ _ other
    cases other with
    | leaf text => cases text
    | element named' inside' =>
      obtain ⟨same,rfl⟩ := names_unique named named'
      cases same
      obtain ⟨rfl,rfl⟩ := ih inside'
      exact ⟨rfl,rfl⟩
    | elementBroke failed => cases (names_unique named failed).1
  | elementBroke failed =>
    intro _ _ other
    cases other with
    | leaf text => cases text
    | element named => cases (names_unique failed named).1
    | elementBroke failed' =>
      obtain ⟨same,rfl⟩ := names_unique failed failed'
      cases same
      exact ⟨rfl,rfl⟩
  | fragment inside ih =>
    intro _ _ other
    cases other with
    | leaf text => cases text
    | fragment inside' =>
      obtain ⟨rfl,rfl⟩ := ih inside'
      exact ⟨rfl,rfl⟩
  | deferred done live more ih =>
    intro _ _ other
    cases other with
    | leaf text => cases text
    | deferred done' live' more' =>
      cases done.symm.trans done'
      exact ih more'
    | deferredBroke failed => cases done.symm.trans failed
  | deferredBroke failed =>
    intro _ _ other
    cases other with
    | leaf text => cases text
    | deferred done => cases failed.symm.trans done
    | deferredBroke failed' =>
      cases failed.symm.trans failed'
      exact ⟨rfl,rfl⟩
  | sequence inside ih =>
    intro _ _ other
    cases other with
    | leaf text => cases text
    | sequence inside' =>
      obtain ⟨rfl,rfl⟩ := ih inside'
      exact ⟨rfl,rfl⟩
  | foreign =>
    intro _ _ other
    cases other with
    | leaf text => cases text
    | foreign => exact ⟨rfl,rfl⟩
  | nil =>
    intro _ _ other
    cases other
    exact ⟨rfl,rfl⟩
  | cons first more ihFirst ihMore =>
    intro _ _ other
    cases other with
    | cons first' more' =>
      obtain ⟨same,rfl⟩ := ihFirst first'
      cases same
      obtain ⟨rfl,rfl⟩ := ihMore more'
      exact ⟨rfl,rfl⟩
    | cut first' => cases (ihFirst first').1
  | cut first ih =>
    intro _ _ other
    cases other with
    | cons first' => cases (ih first').1
    | cut first' =>
      obtain ⟨same,rfl⟩ := ih first'
      cases same
      exact ⟨rfl,rfl⟩
  | ended given live =>
    intro _ _ other
    cases other with
    | ended given' =>
      cases given.symm.trans given'
      exact ⟨rfl,rfl⟩
    | item given' | itemCut given' => cases given.symm.trans given'
    | pullBroke failed => cases given.symm.trans failed
  | item given live here more ihHere ihMore =>
    intro _ _ other
    cases other with
    | ended given' => cases given.symm.trans given'
    | item given' live' here' more' =>
      cases given.symm.trans given'
      obtain ⟨same,rfl⟩ := ihHere here'
      cases same
      obtain ⟨rfl,rfl⟩ := ihMore more'
      exact ⟨rfl,rfl⟩
    | itemCut given' live' here' =>
      cases given.symm.trans given'
      cases (ihHere here').1
    | pullBroke failed => cases given.symm.trans failed
  | itemCut given live here ih =>
    intro _ _ other
    cases other with
    | ended given' => cases given.symm.trans given'
    | item given' live' here' =>
      cases given.symm.trans given'
      cases (ih here').1
    | itemCut given' live' here' =>
      cases given.symm.trans given'
      obtain ⟨same,rfl⟩ := ih here'
      cases same
      exact ⟨rfl,rfl⟩
    | pullBroke failed => cases given.symm.trans failed
  | pullBroke failed =>
    intro _ _ other
    cases other with
    | ended given | item given | itemCut given => cases failed.symm.trans given
    | pullBroke failed' =>
      cases failed.symm.trans failed'
      exact ⟨rfl,rfl⟩

theorem settles_feed_congr {feed : Feed κ} (same : feed.pull host one = feed.pull host two)
    (settles : Settles host token (.feed feed) two result after) :
    Settles host token (.feed feed) one result after := by
  cases settles with
  | ended given live => exact .ended (same.trans given) live
  | item given live here more => exact .item (same.trans given) live here more
  | itemCut given live here => exact .itemCut (same.trans given) live here
  | pullBroke failed => exact .pullBroke (same.trans failed)

theorem mapped_ok {found : Except Fault α} {change : α → β} {value : β}
    (same : found.map change = .ok value) : ∃ inner, found = .ok inner ∧ change inner = value := by
  cases found with
  | error fault => cases same
  | ok inner => exact ⟨inner,rfl,Except.ok.inj same⟩

theorem settles_front {node : Node κ} {rest : List (Node κ)} {trees : List Tree}
    (settles : Settles host token (.nodes (node :: rest)) store (.ok trees) after) :
    ∃ found more middle, Settles host token (.node node) store (.ok found) middle ∧
      Settles host token (.nodes rest) middle (.ok more) after ∧ trees = found ++ more := by
  generalize same : Except.ok trees = result at settles
  cases settles with
  | cut => cases same
  | cons first more =>
    obtain ⟨others,rfl,rfl⟩ := mapped_ok same.symm
    exact ⟨_,others,_,first,more,rfl⟩

theorem settles_nil {trees : List Tree}
    (settles : Settles host token (.nodes []) store (.ok trees) after) :
    trees = [] ∧ after = store := by
  cases settles
  exact ⟨rfl,rfl⟩

theorem settles_append {one other : List (Node κ)} {trees : List Tree} :
    Settles host token (.nodes (one ++ other)) store (.ok trees) after ↔
      ∃ found more middle, Settles host token (.nodes one) store (.ok found) middle ∧
        Settles host token (.nodes other) middle (.ok more) after ∧ trees = found ++ more := by
  induction one generalizing store trees with
  | nil =>
    constructor
    · exact fun settles => ⟨[],trees,store,.nil,settles,rfl⟩
    · rintro ⟨found,more,middle,none,settles,rfl⟩
      obtain ⟨rfl,rfl⟩ := settles_nil none
      exact settles
  | cons node rest ih =>
    constructor
    · intro settles
      obtain ⟨found,others,first,here,later,rfl⟩ := settles_front settles
      obtain ⟨inner,more,middle,inside,behind,rfl⟩ := ih.mp later
      exact ⟨found ++ inner,more,middle,.cons here inside,behind,by rw [List.append_assoc]⟩
    · rintro ⟨found,more,middle,inside,behind,rfl⟩
      obtain ⟨one,inner,first,here,later,rfl⟩ := settles_front inside
      rw [List.append_assoc]
      exact .cons here (ih.mpr ⟨inner,more,middle,later,behind,rfl⟩)

end Markup
