import Markup.Proofs.Follow
import Markup.Proofs.Rendering.Settled

namespace Markup

variable {κ : Type}

def Store.hushed (store : Store) (token : Token) : Store :=
  {store with cancelled := fun other => if other = token then false else store.cancelled other}

def hushedResult (token : Token) : EStateM.Result Fault Store α → EStateM.Result Fault Store α
  | .ok value after => .ok value (after.hushed token)
  | .error fault after => .error fault (after.hushed token)

def Host.hushed (host : Host κ) (token : Token) : Host κ where
  depth := host.depth
  run code given := fun store => hushedResult token (host.run code given store)

-- Code in the places of sequences and lists is handed no token. It does not
-- take back a cancellation, and does the same whether the token is cancelled
-- or not.
structure Host.Obeys (host : Host κ) (token : Token) : Prop where
  stays : ∀ code store, store.cancelled token = true →
    match host.run code none store with
    | .ok _ after | .error _ after => after.cancelled token = true
  same : ∀ code store, hushedResult token (host.run code none (store.hushed token)) =
    hushedResult token (host.run code none store)

-- Two hosts that do the same where a thunk is begun as it should be: handed the
-- token of the run, or its own token for a one-off wait, while the token of the
-- run is not cancelled. What they do otherwise is left open.
structure Host.Proper (token : Token) (host other : Host κ) : Prop where
  depth : other.depth = host.depth
  place : ∀ code, other.run code none = host.run code none
  thunk : ∀ code store, store.cancelled token = false →
    other.run code (some token) store = host.run code (some token) store
  wait : ∀ own code store, store.cancelled token = false →
    other.run code (some (.own own)) store = host.run code (some (.own own)) store

namespace Rendering

variable {host other : Host κ} {token : Token} {stream next : Stream κ} {store middle after : Store}
  {trace : Trace κ} {verdict : Verdict} {consumer : Consumer}

def OneStore (known : (Token → Bool) → Prop) : Tie :=
  fun left right => right = left ∧ known left.cancelled

theorem oneStore_bond (known : (Token → Bool) → Prop) : Bond (OneStore known) where
  supply := fun ⟨same,_⟩ => by rw [same]
  cursor := fun ⟨same,_⟩ => by rw [same]
  noted := fun _ ⟨same,flags⟩ => ⟨by rw [same],flags⟩
  issued := fun ⟨same,flags⟩ => ⟨by rw [same],flags⟩
  moved := fun _ _ ⟨same,flags⟩ => ⟨by rw [same],flags⟩

abbrev SameStore : Tie := OneStore fun _ => True

abbrev SameLive (token : Token) : Tie := OneStore fun cancelled => cancelled token = false

theorem agree_same (result : EStateM.Result Fault Store α) : Agree SameStore result result := by
  cases result with
  | ok value after => exact .ok ⟨rfl,trivial⟩
  | error fault after => exact .error ⟨rfl,trivial⟩

theorem agree_eq {result found : EStateM.Result Fault Store α} (agree : Agree SameStore result found) :
    found = result := by
  cases agree with
  | ok tied => rw [tied.1]
  | error tied => rw [tied.1]

theorem proper_alike (proper : host.Proper token other) :
    Alike (SameLive token) SameStore token host other where
  bond := oneStore_bond _
  depth := proper.depth
  place := fun code left right tied => by
    rw [proper.place code,tied.1]
    exact agree_same _
  start := oneStore_bond _
  opened := fun _ _ tied => ⟨tied.1,trivial⟩
  live := fun _ _ tied => ⟨tied.2,tied.1 ▸ tied.2⟩
  thunk := fun code left right tied => by
    rw [tied.1,proper.thunk code left tied.2]
    exact agree_same _
  wait := fun own code left right tied => by
    rw [tied.1,proper.wait own code left tied.2]
    exact agree_same _

theorem proper_drive (proper : host.Proper token other) (live : store.cancelled token = false)
    (pending : Pending κ) : pending.drive other token store = pending.drive host token store :=
  agree_eq (drive_follows (proper_alike proper) pending store store ⟨rfl,live⟩)

theorem proper_attr (proper : host.Proper token other) (live : store.cancelled token = false)
    (attr : Attr κ) : attr.drive other token store = attr.drive host token store :=
  agree_eq (driveAttr_follows (proper_alike proper) attr store store ⟨rfl,live⟩)

theorem proper_pull (proper : host.Proper token other) (store : Store) (feed : Feed κ) :
    feed.pull other store = feed.pull host store :=
  agree_eq (pull_follows (proper_alike proper).toPlaces feed store store ⟨rfl,trivial⟩)

theorem moves_proper (proper : host.Proper stream.token other)
    (moves : Moves host stream store trace next after) :
    Moves other stream store trace next after := by
  cases moves with
  | chunk => exact .chunk
  | leaf text => exact .leaf text
  | element => exact .element
  | fixed => exact .fixed
  | opening => exact .opening
  | fragment => exact .fragment
  | resolved driven live done => exact .resolved driven live ((proper_attr proper live _).trans done)
  | deferred live done => exact .deferred live ((proper_drive proper live _).trans done)
  | sequence live => exact .sequence live
  | item given live => exact .item ((proper_pull proper _ _).trans given) live
  | ended given => exact .ended ((proper_pull proper _ _).trans given)

theorem halts_proper (proper : host.Proper stream.token other)
    (halts : Halts host stream store trace verdict after) :
    Halts other stream store trace verdict after := by
  cases halts with
  | finished => exact .finished
  | tagStopped driven cancelled => exact .tagStopped driven cancelled
  | tagBroke driven live failed =>
    exact .tagBroke driven live ((proper_attr proper live _).trans failed)
  | deferredStopped cancelled => exact .deferredStopped cancelled
  | deferredBroke live failed => exact .deferredBroke live ((proper_drive proper live _).trans failed)
  | sequenceStopped cancelled => exact .sequenceStopped cancelled
  | itemStopped given cancelled => exact .itemStopped ((proper_pull proper _ _).trans given) cancelled
  | pullBroke failed => exact .pullBroke ((proper_pull proper _ _).trans failed)
  | foreign => exact .foreign

-- What a host would do with another token, or after the cancellation, never
-- comes to bear on a run.
theorem session_proper (proper : host.Proper stream.token other)
    (session : Session host consumer asked stream store trace verdict after) :
    Session other consumer asked stream store trace verdict after := by
  induction session with
  | quiet moves silent more ih =>
    exact .quiet (moves_proper proper moves) silent (ih (moves_token moves ▸ proper))
  | chunk moves written more ih =>
    exact .chunk (moves_proper proper moves) written (ih (moves_token moves ▸ proper))
  | last halts => exact .last (halts_proper proper halts)

theorem stays_places (obeys : host.Obeys token) :
    Places (OneStore fun cancelled => cancelled token = true) host host where
  bond := oneStore_bond _
  depth := rfl
  place := by
    rintro code left right ⟨rfl,cancelled⟩
    have kept := obeys.stays code right cancelled
    cases run : host.run code none right with
    | ok value after =>
      simp only [run] at kept
      exact .ok ⟨rfl,kept⟩
    | error fault after =>
      simp only [run] at kept
      exact .error ⟨rfl,kept⟩

theorem stays_pull (obeys : host.Obeys token) (cancelled : store.cancelled token = true)
    {feed : Feed κ} (given : feed.pull host store = .ok found after) :
    after.cancelled token = true := by
  have agree := pull_follows (stays_places obeys) feed store store ⟨rfl,cancelled⟩
  rw [given] at agree
  cases agree with
  | ok tied => exact tied.2

theorem turn_stays (asked : Nat) (cancelled : store.cancelled token = true) :
    (consumer.turn asked token store).cancelled token = true := by
  unfold Consumer.turn
  split
  · simp [Store.stopped]
  · exact cancelled

def isWrite : Mark κ → Bool
  | .wrote _ => true
  | _ => false

def isEntry : Mark κ → Bool
  | .looked | .produced _ => true
  | _ => false

theorem moves_cancelled (obeys : host.Obeys stream.token)
    (cancelled : store.cancelled stream.token = true)
    (moves : Moves host stream store trace next after) :
    after.cancelled stream.token = true ∧ ∀ mark ∈ trace, mark.1 = true ∧ isWrite mark.2 = true := by
  cases moves with
  | chunk | leaf | opening => exact ⟨cancelled,by simpa [isWrite] using cancelled⟩
  | element | fixed | fragment => exact ⟨cancelled,by simp⟩
  | resolved _ live | deferred live | sequence live => simp [live] at cancelled
  | item given live =>
    have kept := stays_pull obeys cancelled given
    simp [live] at kept
  | ended given => exact ⟨stays_pull obeys cancelled given,by simp⟩

theorem moves_live (live : store.cancelled stream.token = false)
    (moves : Moves host stream store trace next after) : ∀ mark ∈ trace, mark.1 = false := by
  cases moves <;> simp_all

-- Without looks at the token there is only so much left to be written.
mutual
def nodeWeight : Node κ → Nat
  | .element _ attributes children => attributes.length + nodesWeight children + 3
  | .fragment children => nodesWeight children + 1
  | _ => 1
def nodesWeight : List (Node κ) → Nat
  | [] => 0
  | node :: rest => nodeWeight node + nodesWeight rest
end

def taskWeight : Task κ → Nat
  | .chunk _ | .pull _ => 1
  | .show node => nodeWeight node
  | .tag _ _ attributes children => attributes.length + nodesWeight children + 2

def workWeight : List (Task κ) → Nat
  | [] => 0
  | task :: rest => taskWeight task + workWeight rest

theorem workWeight_append (one two : List (Task κ)) :
    workWeight (one ++ two) = workWeight one + workWeight two := by
  induction one with
  | nil => exact (Nat.zero_add _).symm
  | cons task rest ih =>
    rw [List.cons_append,workWeight,workWeight,ih]
    omega

theorem nodeWeight_pos (node : Node κ) : 0 < nodeWeight node := by
  cases node <;> simp [nodeWeight]

theorem nodesWeight_shown (nodes : List (Node κ)) :
    workWeight (nodes.map Task.show) = nodesWeight nodes := by
  induction nodes with
  | nil => rfl
  | cons node rest ih => rw [List.map_cons,workWeight,taskWeight,nodesWeight,ih]

theorem opening_lighter (options : Options) (tag : String) (shown : List (String × String))
    (children : List (Node κ)) :
    workWeight (Stream.opening options tag shown children).2 ≤ nodesWeight children + 1 := by
  unfold Stream.opening
  split
  · simp [workWeight]
  · rw [workWeight_append,nodesWeight_shown]
    exact Nat.le_refl _

theorem moves_lighter (obeys : host.Obeys stream.token)
    (cancelled : store.cancelled stream.token = true)
    (moves : Moves host stream store trace next after) :
    workWeight next.work < workWeight stream.work := by
  cases moves with
  | chunk | ended => exact Nat.lt_add_of_pos_left Nat.one_pos
  | leaf => exact Nat.lt_add_of_pos_left (nodeWeight_pos _)
  | element | fixed =>
    simp only [workWeight,taskWeight,nodeWeight,List.length_cons]
    omega
  | opening =>
    have lighter := opening_lighter ‹_› ‹_› ‹_› ‹_›
    rw [workWeight_append]
    simp only [workWeight,taskWeight,List.length_nil] at lighter ⊢
    omega
  | fragment =>
    rw [workWeight_append,nodesWeight_shown]
    simp only [workWeight,taskWeight,nodeWeight]
    omega
  | resolved _ live | deferred live | sequence live => simp [live] at cancelled
  | item given live =>
    have kept := stays_pull obeys cancelled given
    simp [live] at kept

theorem cancelled_session (obeys : host.Obeys stream.token)
    (cancelled : store.cancelled stream.token = true) (consumer : Consumer) (asked : Nat) :
    ∃ trace verdict after, Session host consumer asked stream store trace verdict after := by
  induction size : workWeight stream.work using Nat.strongRecOn generalizing stream store asked with
  | ind size ih =>
    rcases advance host stream store with ⟨trace,next,middle,moves⟩ | ⟨trace,verdict,after,halts⟩
    · have same := moves_token moves
      have lighter := moves_lighter obeys cancelled moves
      obtain ⟨still,_⟩ := moves_cancelled obeys cancelled moves
      rw [←same] at obeys still
      rcases moves_chunks moves with silent | ⟨text,written⟩
      · obtain ⟨rest,verdict,after,session⟩ := ih _ (size ▸ lighter) obeys still asked rfl
        exact ⟨_,_,_,.quiet moves silent session⟩
      · obtain ⟨rest,verdict,after,session⟩ :=
          ih _ (size ▸ lighter) obeys (turn_stays _ still) (asked + 1) rfl
        exact ⟨_,_,_,.chunk moves written session⟩
    · exact ⟨_,_,_,.last halts⟩

theorem cancels_session (cancels : Cancels host consumer asked stream store) :
    host.Obeys stream.token →
      ∃ trace verdict after, Session host consumer asked stream store trace verdict after := by
  induction cancels with
  | now cancelled => exact fun obeys => cancelled_session obeys cancelled _ _
  | item given cancelled => exact fun _ => ⟨_,_,_,.last (.itemStopped given cancelled)⟩
  | quiet moves silent more ih =>
    intro obeys
    obtain ⟨rest,verdict,after,session⟩ := ih (moves_token moves ▸ obeys)
    exact ⟨_,_,_,.quiet moves silent session⟩
  | chunk moves written more ih =>
    intro obeys
    obtain ⟨rest,verdict,after,session⟩ := ih (moves_token moves ▸ obeys)
    exact ⟨_,_,_,.chunk moves written session⟩

-- The marks of a run: those before the cancellation; then chunks only; and at
-- the last a look at the token, or one item after which it is looked at.
structure Shape (trace early late last : Trace κ) (verdict : Verdict) : Prop where
  whole : trace = early ++ late ++ last
  before : ∀ mark ∈ early, mark.1 = false
  after : ∀ mark ∈ late, mark.1 = true ∧ isWrite mark.2 = true
  finished : verdict = .finished → last = []
  stopped : verdict = .stopped → ∃ mark, last = [(true,mark)] ∧ isEntry mark = true

theorem shape_step (obeys : host.Obeys stream.token)
    (moves : Moves host stream store trace next middle)
    (shape : Shape rest early late last verdict)
    (later : middle.cancelled stream.token = true → early = []) :
    ∃ early' late', Shape (trace ++ rest) early' late' last verdict ∧
      (store.cancelled stream.token = true → early' = []) := by
  rcases Bool.eq_false_or_eq_true (store.cancelled stream.token) with cancelled | live
  · obtain ⟨still,writes⟩ := moves_cancelled obeys cancelled moves
    obtain rfl := later still
    refine ⟨[],trace ++ late,⟨by simp [shape.whole],by simp,?_,shape.finished,shape.stopped⟩,
      fun _ => rfl⟩
    intro mark inside
    exact (List.mem_append.mp inside).elim (writes mark) (shape.after mark)
  · refine ⟨trace ++ early,late,⟨by simp [shape.whole],?_,shape.after,shape.finished,
      shape.stopped⟩,fun cancelled => by simp [live] at cancelled⟩
    intro mark inside
    exact (List.mem_append.mp inside).elim (moves_live live moves mark) (shape.before mark)

theorem session_shape (session : Session host consumer asked stream store trace verdict after) :
    host.Obeys stream.token → (∀ fault, verdict ≠ .broke fault) →
      ∃ early late last, Shape trace early late last verdict ∧
        (store.cancelled stream.token = true → early = []) := by
  induction session with
  | quiet moves silent more ih =>
    intro obeys sound
    obtain ⟨early,late,last,shape,dead⟩ := ih (moves_token moves ▸ obeys) sound
    rw [moves_token moves] at dead
    obtain ⟨early',late',whole,dead'⟩ := shape_step obeys moves shape dead
    exact ⟨early',late',last,whole,dead'⟩
  | chunk moves written more ih =>
    intro obeys sound
    obtain ⟨early,late,last,shape,dead⟩ := ih (moves_token moves ▸ obeys) sound
    rw [moves_token moves] at dead
    obtain ⟨early',late',whole,dead'⟩ := shape_step obeys moves shape
      fun cancelled => dead (turn_stays _ cancelled)
    exact ⟨early',late',last,whole,dead'⟩
  | last halts =>
    intro obeys sound
    refine ⟨[],[],_,⟨rfl,by simp,by simp,?_,?_⟩,fun _ => rfl⟩
    · rintro rfl
      cases halts
      rfl
    · rintro rfl
      cases halts <;> exact ⟨_,rfl,rfl⟩

-- The same run without the cancellation. The reference is kept on the left: its
-- store is that of the run, with the flag of the token taken away.

def Hushed (token : Token) : Tie := fun left right => left = right.hushed token

theorem hushed_bond (token : Token) : Bond (Hushed token) where
  supply := fun tied => by rw [show _ = _ from tied]; rfl
  cursor := fun tied => by rw [show _ = _ from tied]; rfl
  noted := fun _ tied => by rw [Hushed,show _ = _ from tied]; rfl
  issued := fun tied => by rw [Hushed,show _ = _ from tied]; rfl
  moved := fun _ _ tied => by rw [Hushed,show _ = _ from tied]; rfl

theorem hushed_live (live : store.cancelled token = false) : store.hushed token = store := by
  have same : (store.hushed token).cancelled = store.cancelled := by
    funext other
    simp only [Store.hushed]
    split
    · rename_i here
      rw [here,live]
    · rfl
  exact congrArg (fun flags => {store with cancelled := flags}) same

theorem hushed_cancelled (store : Store) (token : Token) :
    (store.hushed token).cancelled token = false := by
  simp [Store.hushed]

theorem agree_hushed (token : Token) (result : EStateM.Result Fault Store α) :
    Agree (Hushed token) (hushedResult token result) result := by
  cases result with
  | ok value after => exact .ok rfl
  | error fault after => exact .error rfl

theorem hushed_alike (obeys : host.Obeys token) :
    Alike (SameLive token) (Hushed token) token (host.hushed token) host where
  bond := hushed_bond token
  depth := rfl
  place := fun code left right tied => by
    rw [show left = right.hushed token from tied,Host.hushed]
    dsimp only
    rw [obeys.same code right]
    exact agree_hushed token _
  start := oneStore_bond _
  opened := fun left right tied => by
    rw [Hushed,tied.1]
    exact (hushed_live tied.2).symm
  live := fun _ _ tied => ⟨tied.2,tied.1 ▸ tied.2⟩
  thunk := fun code left right tied => by
    rw [tied.1]
    exact agree_hushed token _
  wait := fun own code left right tied => by
    rw [tied.1]
    exact agree_hushed token _

theorem hushed_ok {action reference : Action α}
    (follows : Agree (Hushed token) (reference left) (action store))
    (done : action store = .ok value after) : reference left = .ok value (after.hushed token) := by
  rw [done] at follows
  generalize reference left = found at follows
  cases follows with
  | ok tied => rw [show _ = _ from tied]

def hushedTrace (trace : Trace κ) : Trace κ := trace.map fun mark => (false,mark.2)

theorem hushedTrace_chunks (trace : Trace κ) : chunksOf (hushedTrace trace) = chunksOf trace := by
  have same : chunkOf ∘ (fun mark : Bool × Mark κ => (false,mark.2)) = chunkOf := by
    funext ⟨flag,mark⟩
    cases mark <;> rfl
  rw [chunksOf,hushedTrace,List.filterMap_map,same,chunksOf]

theorem hushed_drive (obeys : host.Obeys token) (live : store.cancelled token = false)
    {pending : Pending κ} (done : pending.drive host token store = .ok node after) :
    pending.drive (host.hushed token) token (store.hushed token) = .ok node (after.hushed token) := by
  have agree := drive_follows (hushed_alike obeys) pending store store ⟨rfl,live⟩
  rw [hushed_live live]
  exact hushed_ok agree done

theorem hushed_attr (obeys : host.Obeys token) (live : store.cancelled token = false)
    {attr : Attr κ} (done : attr.drive host token store = .ok pair after) :
    attr.drive (host.hushed token) token (store.hushed token) = .ok pair (after.hushed token) := by
  have agree := driveAttr_follows (hushed_alike obeys) attr store store ⟨rfl,live⟩
  rw [hushed_live live]
  exact hushed_ok agree done

theorem hushed_pull (obeys : host.Obeys token) {feed : Feed κ}
    (given : feed.pull host store = .ok found after) :
    feed.pull (host.hushed token) (store.hushed token) = .ok found (after.hushed token) :=
  hushed_ok (pull_follows (hushed_alike obeys).toPlaces feed _ store rfl) given

theorem moves_hushed (obeys : host.Obeys stream.token)
    (moves : Moves host stream store trace next after) :
    Moves (host.hushed stream.token) stream (store.hushed stream.token) (hushedTrace trace) next
      (after.hushed stream.token) := by
  have live := hushed_cancelled store stream.token
  cases moves with
  | @chunk token options text rest store =>
    have step : Moves (host.hushed token) ⟨token,options,.chunk text :: rest⟩ (store.hushed token) _
      _ _ := .chunk
    rwa [live] at step
  | @leaf node chunk token options rest store text =>
    have step : Moves (host.hushed token) ⟨token,options,.show node :: rest⟩ (store.hushed token) _
      _ _ := .leaf text
    rwa [live] at step
  | @opening token options tag shown children rest store =>
    have step : Moves (host.hushed token) ⟨token,options,.tag tag shown [] children :: rest⟩
      (store.hushed token) _ _ _ := .opening
    rwa [live] at step
  | element => exact .element
  | fixed => exact .fixed
  | fragment => exact .fragment
  | resolved driven begins done => exact .resolved driven live (hushed_attr obeys begins done)
  | deferred begins done => exact .deferred live (hushed_drive obeys begins done)
  | sequence => exact .sequence live
  | item given => exact .item (hushed_pull obeys given) (hushed_cancelled _ _)
  | ended given => exact .ended (hushed_pull obeys given)

theorem turn_hushed (asked : Nat) (token : Token) (store : Store) :
    (consumer.turn asked token store).hushed token = store.hushed token := by
  unfold Consumer.turn
  split
  · have same : ((store.stopped token).hushed token).cancelled = (store.hushed token).cancelled := by
      funext other
      simp only [Store.hushed,Store.stopped]
      split <;> rfl
    exact congrArg (fun flags => {store with cancelled := flags}) same
  · rfl

theorem halts_hushed (obeys : host.Obeys stream.token)
    (halts : Halts host stream store trace .stopped after) :
    ∃ mark rest, trace = [(true,mark)] ∧ isEntry mark = true ∧
      Seen (host.hushed stream.token) stream (store.hushed stream.token) ((false,mark) :: rest) := by
  have live := hushed_cancelled store stream.token
  cases halts with
  | @tagStopped attr token options tag shown more children rest store driven =>
    refine ⟨_,[(false,.drove (.foreign (.attr attr)))],rfl,rfl,?_⟩
    cases run : attr.drive (host.hushed token) token (store.hushed token) with
    | ok pair after => exact .step (.resolved driven live run) .none
    | error fault after => exact .last (.tagBroke driven live run)
  | @deferredStopped token options pending rest store =>
    refine ⟨_,[(false,.drove (.deferred pending))],rfl,rfl,?_⟩
    cases run : pending.drive (host.hushed token) token (store.hushed token) with
    | ok pair after => exact .step (.deferred live run) .none
    | error fault after => exact .last (.deferredBroke live run)
  | sequenceStopped => exact ⟨_,[],rfl,rfl,.step (.sequence live) .none⟩
  | itemStopped given =>
    exact ⟨_,[],rfl,rfl,.step (.item (hushed_pull obeys given) (hushed_cancelled _ _)) .none⟩

theorem finished_hushed (session : Session host consumer asked stream store trace verdict after) :
    host.Obeys stream.token → verdict = .finished →
      ∀ asked, Session (host.hushed stream.token) .silent asked stream (store.hushed stream.token)
        (hushedTrace trace) .finished (after.hushed stream.token) := by
  induction session with
  | quiet moves silent more ih =>
    intro obeys finished asked
    have later := ih (moves_token moves ▸ obeys) finished asked
    rw [moves_token moves] at later
    rw [hushedTrace,List.map_append]
    exact .quiet (moves_hushed obeys moves) ((hushedTrace_chunks _).trans silent) later
  | chunk moves written more ih =>
    intro obeys finished asked
    have later := ih (moves_token moves ▸ obeys) finished (asked + 1)
    rw [moves_token moves,turn_hushed] at later
    rw [hushedTrace,List.map_append]
    exact .chunk (moves_hushed obeys moves) ((hushedTrace_chunks _).trans written) later
  | last halts =>
    rintro obeys rfl asked
    cases halts
    exact .last .finished

theorem stopped_hushed (session : Session host consumer asked stream store trace verdict after) :
    host.Obeys stream.token → verdict = .stopped →
      ∃ front mark rest, trace = front ++ [(true,mark)] ∧ isEntry mark = true ∧
        Seen (host.hushed stream.token) stream (store.hushed stream.token)
          (hushedTrace front ++ (false,mark) :: rest) := by
  induction session with
  | @quiet stream store trace next middle asked rest verdict after moves silent more ih =>
    intro obeys stopped
    obtain ⟨front,mark,further,rfl,entry,seen⟩ := ih (moves_token moves ▸ obeys) stopped
    rw [moves_token moves] at seen
    refine ⟨trace ++ front,mark,further,by rw [List.append_assoc],entry,?_⟩
    rw [hushedTrace,List.map_append,List.append_assoc]
    exact .step (moves_hushed obeys moves) seen
  | @chunk stream store trace next middle text asked rest verdict after moves written more ih =>
    intro obeys stopped
    obtain ⟨front,mark,further,rfl,entry,seen⟩ := ih (moves_token moves ▸ obeys) stopped
    rw [moves_token moves,turn_hushed] at seen
    refine ⟨trace ++ front,mark,further,by rw [List.append_assoc],entry,?_⟩
    rw [hushedTrace,List.map_append,List.append_assoc]
    exact .step (moves_hushed obeys moves) seen
  | last halts =>
    rintro obeys rfl
    obtain ⟨mark,rest,rfl,entry,seen⟩ := halts_hushed obeys halts
    exact ⟨[],mark,rest,rfl,entry,seen⟩

theorem hushedTrace_before (before : ∀ mark ∈ trace, mark.1 = false) : hushedTrace trace = trace := by
  refine (List.map_congr_left fun mark inside => ?_).trans (List.map_id trace)
  exact Prod.ext (before mark inside).symm rfl

theorem entry_chunks (rest : Trace κ) (entry : isEntry mark = true) (flag : Bool) :
    chunksOf ((flag,mark) :: rest) = chunksOf rest := by
  cases mark with
  | looked | produced => rfl
  | wrote | drove => cases entry

theorem session_sofar (session : Session host consumer asked stream store trace verdict after)
    (obeys : host.Obeys stream.token) (sound : ∀ fault, verdict ≠ .broke fault) :
    ∃ part, Seen (host.hushed stream.token) stream (store.hushed stream.token) part ∧
      chunksOf trace <+: chunksOf part := by
  cases verdict with
  | broke fault => exact (sound fault rfl).elim
  | finished =>
    have reference := finished_hushed session obeys rfl 0
    have same := hushedTrace_chunks trace
    exact ⟨_,session_seen reference,same ▸ List.prefix_rfl⟩
  | stopped =>
    obtain ⟨front,mark,rest,rfl,entry,seen⟩ := stopped_hushed session obeys rfl
    refine ⟨_,seen,?_⟩
    rw [chunksOf_append,chunksOf_append,hushedTrace_chunks,entry_chunks _ entry,entry_chunks _ entry]
    simp

theorem session_entries (session : Session host consumer asked stream store trace verdict after)
    (obeys : host.Obeys stream.token) (sound : ∀ fault, verdict ≠ .broke fault)
    (shape : Shape trace early late last verdict) :
    verdict = .stopped ↔ ∃ more,
      Seen (host.hushed stream.token) stream (store.hushed stream.token) (early ++ more) ∧
        ∃ mark ∈ more, isEntry mark.2 = true := by
  have same := hushedTrace_before shape.before
  constructor
  · rintro rfl
    obtain ⟨front,mark,rest,whole,entry,seen⟩ := stopped_hushed session obeys rfl
    obtain ⟨mark',ends,_⟩ := shape.stopped rfl
    have both := shape.whole
    rw [whole,ends] at both
    obtain ⟨rfl,_⟩ := List.append_inj' both rfl
    rw [hushedTrace,List.map_append,←hushedTrace,same,List.append_assoc] at seen
    exact ⟨_,seen,(false,mark),by simp,entry⟩
  · rintro ⟨more,seen,mark,inside,entry⟩
    cases verdict with
    | broke fault => exact (sound fault rfl).elim
    | stopped => rfl
    | finished =>
      have reference := finished_hushed session obeys rfl 0
      have part := seen_before seen reference
      rw [shape.whole,shape.finished rfl,List.append_nil,hushedTrace,List.map_append,←hushedTrace,
        same,List.prefix_append_right_inj] at part
      obtain ⟨written,known,rfl⟩ := List.mem_map.mp (part.subset inside)
      have writes := (shape.after written known).2
      cases kind : written.2 <;> simp_all [isWrite,isEntry]

theorem proper_self (host : Host κ) (token : Token) : host.Proper token host :=
  ⟨rfl,fun _ => rfl,fun _ _ _ => rfl,fun _ _ _ _ => rfl⟩

-- How a run keeps to the cancellation of its token, whoever cancels it: code
-- that is run on the way, or the consumer before it asks for a chunk. The
-- reference is the same run with the cancellation taken away.
structure Honoured (host : Host κ) (consumer : Consumer) (start : Stream κ) (store : Store)
    (trace : Trace κ) (verdict : Verdict) (after : Store) : Prop where
  -- The consumer gets to see these chunks and this end, and would also if thunks did
  -- something else when handed another token or begun later.
  thunks : ∀ other, host.Proper start.token other →
    ∃ bound, ∀ fuel count, bound ≤ fuel → bound ≤ count →
      listen other consumer fuel count 0 [] start store =
        .ok (chunksOf trace,verdict.ending) (verdict.left after)
  sofar : ∃ bound, ∀ fuel count, bound ≤ fuel → bound ≤ count →
    ∃ chunks ending last, start.read (host.hushed start.token) fuel count []
      (store.hushed start.token) = .ok (chunks,ending) last ∧ chunksOf trace <+: chunks
  -- After the cancellation there are chunks, and one look or one item at most.
  -- The run is stopped when the reference has a look or an item to come.
  marks : ∃ early late last, Shape trace early late last verdict ∧
    (verdict = .stopped ↔ ∃ more,
      Seen (host.hushed start.token) start (store.hushed start.token) (early ++ more) ∧
        ∃ mark ∈ more, isEntry mark.2 = true)
  complete : verdict ≠ .stopped → verdict = .finished ∧
    ∃ bound last, ∀ fuel count, bound ≤ fuel → bound ≤ count →
      start.read (host.hushed start.token) fuel count [] (store.hushed start.token) =
        .ok (chunksOf trace,.finished) last

theorem session_honoured {start : Stream κ} (obeys : host.Obeys start.token)
    (session : Session host consumer 0 start (consumer.turn 0 start.token store) trace verdict after)
    (sound : ∀ fault, verdict ≠ .broke fault) :
    Honoured host consumer start store trace verdict after where
  thunks := by
    intro other proper
    obtain ⟨bound,listens⟩ := session_listen (session_proper proper session)
    exact ⟨bound,fun fuel count enough enoughCount => listens fuel count [] enough enoughCount⟩
  sofar := by
    obtain ⟨part,seen,sofar⟩ := session_sofar session obeys sound
    rw [turn_hushed] at seen
    obtain ⟨bound,reads⟩ := seen_read seen
    refine ⟨bound,fun fuel count enough enoughCount => ?_⟩
    obtain ⟨more,ending,last,read,seen⟩ := reads fuel count enough enoughCount
    exact ⟨more,ending,last,read,sofar.trans seen⟩
  marks := by
    obtain ⟨early,late,last,shape,_⟩ := session_shape session obeys sound
    have entries := session_entries session obeys sound shape
    rw [turn_hushed] at entries
    exact ⟨early,late,last,shape,entries⟩
  complete := by
    intro running
    cases verdict with
    | broke fault => exact (sound fault rfl).elim
    | stopped => exact (running rfl).elim
    | finished =>
      have reference := finished_hushed session obeys rfl 0
      rw [turn_hushed] at reference
      obtain ⟨bound,reads⟩ := session_read reference
      refine ⟨rfl,bound,after.hushed start.token,fun fuel count enough enoughCount => ?_⟩
      rw [←hushedTrace_chunks]
      exact reads fuel count [] enough enoughCount

def Unbroken (host : Host κ) (consumer : Consumer) (start : Stream κ) (store : Store) : Prop :=
  ∀ trace verdict after, Session host consumer 0 start (consumer.turn 0 start.token store) trace
    verdict after → ∀ fault, verdict ≠ .broke fault

-- Every tree, however it was composed, under every options value and with every
-- consumer that reads to the end: the run in which the token becomes cancelled ends,
-- and whoever asks for enough chunks gets to see what it comes to. A run that ends
-- with fewer steps comes to the same.
theorem cancellation_honoured {options : Options} {node : Node κ} (obeys : host.Obeys token)
    (sound : Unbroken host consumer (Stream.start token options node) store)
    (cancels : Cancels host consumer 0 (Stream.start token options node)
      (consumer.turn 0 token store)) :
    ∃ trace verdict after,
      Session host consumer 0 (Stream.start token options node) (consumer.turn 0 token store) trace
        verdict after ∧
      Honoured host consumer (Stream.start token options node) store trace verdict after ∧
      (∃ bound, ∀ fuel count, bound ≤ fuel → bound ≤ count →
        listen host consumer fuel count 0 [] (Stream.start token options node) store =
          .ok (chunksOf trace,verdict.ending) (verdict.left after)) ∧
      ∀ fuel count chunks ending last,
        listen host consumer fuel count 0 [] (Stream.start token options node) store =
          .ok (chunks,ending) last →
        (∀ rest, ending ≠ .more rest) → ending ≠ .failed .tooDeep →
          chunks = chunksOf trace ∧ ending = verdict.ending ∧ last = verdict.left after := by
  obtain ⟨trace,verdict,after,session⟩ := cancels_session cancels obeys
  have honoured := session_honoured obeys session (sound trace verdict after session)
  refine ⟨trace,verdict,after,session,honoured,honoured.thunks host (proper_self host token),?_⟩
  intro fuel count chunks ending last run ended deep
  obtain ⟨_,_,_,other,written,ends,left⟩ := listen_session ended deep run
  obtain ⟨rfl,rfl,rfl⟩ := session_unique session other
  exact ⟨by simp [written],ends.symm,left.symm⟩

def hastyHost : Host Nat where
  depth := 0
  run
    | 0,some token => do
      Action.cancel token
      return .text "a"
    | _,_ => return .text "c"

def hastyPage : Node Nat :=
  .fragment [.deferred (.body 0 "first" 0),.text "b",.deferred (.body 1 "second" 1),.text "d"]

theorem hastyHost_obeys (token : Token) : hastyHost.Obeys token := by
  refine ⟨?_,?_⟩
  · intro code store cancelled
    rcases code with _ | code <;> exact cancelled
  · intro code store
    have idle : (store.hushed token).hushed token = store.hushed token :=
      hushed_live (hushed_cancelled store token)
    rcases code with _ | code <;> exact congrArg (EStateM.Result.ok (Node.text "c")) idle

theorem hastyPage_session : ∃ trace after, Session hastyHost .silent 0
    (Stream.start (.named "t") .default hastyPage) {} trace .stopped after ∧
      chunksOf trace = ["a","b"] ∧
      after.journal.reverse.map Event.line =
        ["drive first","DEBUG hox.rendering: Resolved deferred node into Text"] :=
  ⟨_,_,.quiet .fragment rfl (.quiet (.deferred rfl rfl) rfl (.chunk (.leaf rfl) rfl
    (.chunk (.leaf rfl) rfl (.last (.deferredStopped rfl))))),rfl,rfl⟩

theorem hastyPage_honoured : ∃ trace after, chunksOf trace = ["a","b"] ∧
    after.journal.reverse.map Event.line =
      ["drive first","DEBUG hox.rendering: Resolved deferred node into Text"] ∧
    Honoured hastyHost .silent (Stream.start (.named "t") .default hastyPage) {} trace .stopped
      after ∧
    ∃ bound, ∀ fuel count, bound ≤ fuel → bound ≤ count →
      listen hastyHost .silent fuel count 0 [] (Stream.start (.named "t") .default hastyPage) {} =
        .ok (["a","b"],.failed Fault.stopped) (after.noted .cancelled) := by
  obtain ⟨_,_,known,chunks,journal⟩ := hastyPage_session
  have sound : Unbroken hastyHost .silent (Stream.start (.named "t") .default hastyPage) {} := by
    intro trace verdict after session fault broke
    obtain ⟨_,rfl,_⟩ := session_unique known session
    cases broke
  have cancels : Cancels hastyHost .silent 0 (Stream.start (.named "t") .default hastyPage) {} :=
    .quiet .fragment rfl (.quiet (.deferred rfl rfl) rfl (.now rfl))
  obtain ⟨trace,verdict,after,session,honoured,⟨bound,listens⟩,_⟩ :=
    cancellation_honoured (hastyHost_obeys _) sound cancels
  obtain ⟨rfl,rfl,rfl⟩ := session_unique known session
  refine ⟨_,_,chunks,journal,honoured,bound,fun fuel count enough enoughCount => ?_⟩
  rw [listens fuel count enough enoughCount,chunks]
  rfl

end Rendering

end Markup
