import Cerid.Lib.Json
import Cerid.Lib.Run
import Cerid.Lib.Text
import Mathlib.Logic.Function.Basic

/-!
# The inbox of webhooks

What the receiver of webhooks acknowledges is in the inbox of its source, in Redis.  A drain
takes entries out of the inboxes, so many at most, and makes a task of each; the tasks run side
by side, and once all are over the entries that failed go to the dead letters.  A drain that
Redis fails leaves its tasks to themselves.

Any step may come between two others, and the process may stop at any of them.  The bound on
the tasks that run at once, the search for the source of a token, the log and the metrics are
left out.
-/

namespace Cerid.Sources.Webhook

open Text (strip)

abbrev Chars := List Char

/-- The id of a source; it is a UUID. -/
abbrev SourceId := { id : Chars // ':' ∉ id }

/-- What came in for a source. -/
abbrev Entry := SourceId × Chars

structure Readers where
  /-- Whether the number that is spelled so is zero. -/
  isZero : String → Bool
  /-- `json.dumps` -/
  dumps : Json → Chars

variable (R : Readers)

/-! ## The receiver -/

structure Recipe where
  requiresSignature : Bool
  /-- The artifacts of a payload; none where the recipe raises. -/
  normalize : Json → Option (List Json)

/-- The record of a source that a token names. -/
structure Hook where
  id : SourceId
  hasSecret : Bool
  recipe : Option Recipe

/-- What comes of a command to Redis. -/
inductive Reply where
  | ok
  /-- It raised; it may have been done all the same. -/
  | failed (done : Bool)
deriving DecidableEq

def Reply.done : Reply → Bool
  | .ok => true
  | .failed done => done

/-- `_sdk_ingest_webhook_impl`, up to the queue: the entry to be pushed, or the status that it
ends with. -/
def ingestWebhook (hook : Option Hook) (signed : Bool) (payload : Option Json) (now : Chars) :
    Except Nat Entry :=
  match hook with
  | none => .error 404
  | some hook =>
    if hook.hasSecret ∧ ¬ signed then .error 401
    else
      match payload with
      | none => .error 422
      | some payload =>
        let requiresSig := hook.recipe.any Recipe.requiresSignature
        let normalized := hook.recipe.bind fun recipe => recipe.normalize payload
        if requiresSig ∧ ¬ hook.hasSecret then .error 400
        else .ok (hook.id, R.dumps (.obj [("received_at", .str (String.ofList now)),
          ("payload", payload), ("normalized", (normalized.map Json.arr).getD .null)]))

/-! ## One entry -/

/-- Whether Python takes the value for true. -/
def truthy : Json → Bool
  | .null => false
  | .bool b => b
  | .num literal => !R.isZero literal
  | .str s => s ≠ ""
  | .arr items => !items.isEmpty
  | .obj members => !members.isEmpty

/-- The articles of an entry; none where it raises before the first. -/
def articles (raw : Chars) : Option (List Json) :=
  match Json.loads raw with
  | some (.obj members) =>
    let entry : Json := .obj members
    match (entry.get? "normalized").filter (truthy R) with
    | none =>
      let payload := R.dumps ((entry.get? "payload").getD (.obj []))
      some [.obj [("content", .str (String.ofList payload)), ("title", .str "webhook payload")]]
    | some (.arr arts) => some arts
    | some _ => none
  | _ => none

/-- `(art.get("content") or "").strip()`; none where it raises. -/
def content (art : Json) : Option Chars :=
  match art with
  | .obj _ =>
    match (art.get? "content").filter (truthy R) with
    | none => some []
    | some (.str s) => some (strip s.toList)
    | some _ => none
  | _ => none

/-- A call of `ingest_content`. -/
structure Call where
  source : SourceId
  domain : Chars
  content : Chars
  title : Json
  url : Json

def callOf (source : SourceId) (domain text : Chars) (art : Json) : Call where
  source := source
  domain := domain
  content := text
  title := (art.get? "title").getD (.str "")
  url := (art.get? "url").getD (.str "")

/-- The calls for articles; none where one of them raises. -/
def callsOf (source : SourceId) (domain : Chars) : List Json → Option (List Call)
  | [] => some []
  | art :: rest =>
    match content R art with
    | none => none
    | some text =>
      (callsOf source domain rest).map fun calls =>
        if text = [] then calls else callOf source domain text art :: calls

/-! ## The drain -/

/-- The task that handles an entry. -/
inductive Status where
  | waiting
  | running (rest : List Json)
  /-- It gave the entry back. -/
  | failed
  /-- It was cancelled. -/
  | cancelled

structure Task where
  entry : Entry
  domain : Chars
  /-- Whether a drain waits for it. -/
  gathered : Bool
  status : Status

def Task.over (t : Task) : Bool :=
  match t.status with
  | .waiting | .running _ => false
  | .failed | .cancelled => true

/-- What a task that runs does next. -/
inductive Turn where
  | ends
  | fails
  | calls (call : Call) (rest : List Json)

def turn (source : SourceId) (domain : Chars) : List Json → Turn
  | [] => .ends
  | art :: rest =>
    match content R art with
    | none => .fails
    | some text =>
      if text = [] then turn source domain rest else .calls (callOf source domain text art) rest

inductive Phase where
  | idle
  /-- Entries are taken; `drained` of them so far. -/
  | collecting (keys : List SourceId) (domains : SourceId → Option Chars) (drained : Nat)
  | gathering

/-- Redis, the tasks, and what has happened. -/
structure World where
  inbox : SourceId → List Chars
  deadletter : SourceId → List Chars
  phase : Phase
  tasks : List Task
  calls : List Call
  acknowledged : List Entry
  queued : List Entry
  drained : List Entry
  ingested : List Entry
  lost : List Entry
  /-- How often a process or a drain has stopped. -/
  stops : Nat
  /-- How many single entries could not be taken or given back. -/
  slips : Nat

def World.start : World where
  inbox := fun _ => []
  deadletter := fun _ => []
  phase := .idle
  tasks := []
  calls := []
  acknowledged := []
  queued := []
  drained := []
  ingested := []
  lost := []
  stops := 0
  slips := 0

inductive Op where
  | receive (hook : Option Hook) (signed : Bool) (payload : Option Json) (now : Chars)
      (reply : Reply)
  /-- A drain begins; the keys are those it found. -/
  | begin (keys : List SourceId) (domains : SourceId → Option Chars)
  | collect (reply : Reply)
  | advance (i : Nat) (stored : Bool)
  | cancel (i : Nat)
  | settle (reply : Reply)
  | crash

def pushTo (lists : SourceId → List Chars) (e : Entry) : SourceId → List Chars :=
  Function.update lists e.1 (lists e.1 ++ [e.2])

/-- `key.rsplit(":", 1)[-1]`. -/
def sourceOf (key : Chars) : Chars := (key.reverse.takeWhile (· ≠ ':')).reverse

/-- The domain of a source; a look-up that fails gives none. -/
def domainOf (domains : SourceId → Option Chars) (s : SourceId) : Chars :=
  ((domains s).filter (· ≠ [])).getD "general".toList

/-- A drain that ends without its tasks. -/
def World.abandon (w : World) : World :=
  { w with
    phase := .idle
    tasks := (w.tasks.filter fun t => !t.over).map fun t => { t with gathered := false }
    lost := w.lost ++ (w.tasks.filter Task.over).map Task.entry
    stops := w.stops + 1 }

/-- An entry is taken out of the inbox. -/
def World.taken (w : World) (s : SourceId) (raw : Chars) (more : List Chars) : World :=
  { w with
    inbox := Function.update w.inbox s more
    drained := w.drained ++ [(s, raw)] }

/-- One round of the loops that take entries. -/
def World.collect (maxPerRun : Int) (w : World) (keys : List SourceId)
    (domains : SourceId → Option Chars) (drained : Nat) (reply : Reply) : World :=
  match keys with
  | [] => { w with phase := .gathering }
  | s :: rest =>
    if maxPerRun ≤ drained then { w with phase := .gathering }
    else
      match w.inbox s, reply with
      | [], .ok => { w with phase := .collecting rest domains drained }
      | raw :: more, .ok =>
        { w.taken s raw more with
          phase := .collecting keys domains (drained + 1)
          tasks := w.tasks ++ [⟨(s, raw), domainOf domains s, true, .waiting⟩] }
      | raw :: more, .failed true =>
        World.abandon { w.taken s raw more with
          lost := w.lost ++ [(s, raw)]
          slips := w.slips + 1 }
      | _, .failed _ => w.abandon

/-- The task at `i` is over, or has another status. -/
def World.put (w : World) (i : Nat) (t : Task) : World :=
  let before := w.tasks.take i
  let after := w.tasks.drop (i + 1)
  if t.over ∧ ¬ t.gathered then
    { w with tasks := before ++ after, lost := w.lost ++ [t.entry] }
  else { w with tasks := before ++ t :: after }

/-- `_drain_webhook_entry`, from one call to the next. -/
def World.advance (w : World) (i : Nat) (t : Task) (stored : Bool) : World :=
  match t.status with
  | .waiting =>
    match articles R t.entry.2 with
    | none => w.put i { t with status := .failed }
    | some arts => w.put i { t with status := .running arts }
  | .running rest =>
    match turn R t.entry.1 t.domain rest with
    | .ends =>
      { w with
        tasks := w.tasks.take i ++ w.tasks.drop (i + 1)
        ingested := w.ingested ++ [t.entry] }
    | .fails => w.put i { t with status := .failed }
    | .calls call rest =>
      if stored then
        World.put { w with calls := w.calls ++ [call] } i { t with status := .running rest }
      else w.put i { t with status := .failed }
  | .failed | .cancelled => w

/-- The first result is looked at, once all are there. -/
def World.settle (w : World) (reply : Reply) : World :=
  if w.tasks.any fun t => t.gathered && !t.over then w
  else
    match w.tasks.find? Task.gathered with
    | none => { w with phase := .idle }
    | some t =>
      let w' := { w with tasks := w.tasks.eraseP Task.gathered }
      match t.status, reply.done with
      | .failed, true => { w' with deadletter := pushTo w.deadletter t.entry }
      | _, _ => { w' with lost := w.lost ++ [t.entry], slips := w.slips + 1 }

/-- The process stops. -/
def World.crashed (w : World) : World :=
  { w with
    phase := .idle
    tasks := []
    lost := w.lost ++ w.tasks.map Task.entry
    stops := w.stops + 1 }

def World.step (maxPerRun : Int) (w : World) : Op → World
  | .receive hook signed payload now reply =>
    match ingestWebhook R hook signed payload now with
    | .error _ => w
    | .ok e =>
      { w with
        inbox := if reply.done then pushTo w.inbox e else w.inbox
        queued := w.queued ++ if reply.done then [e] else []
        acknowledged := w.acknowledged ++ if reply = .ok then [e] else [] }
  | .begin keys domains =>
    match w.phase with
    | .idle => { w with phase := .collecting keys domains 0 }
    | _ => w
  | .collect reply =>
    match w.phase with
    | .collecting keys domains drained => w.collect maxPerRun keys domains drained reply
    | _ => w
  | .advance i stored =>
    match w.tasks[i]? with
    | none => w
    | some t => w.advance R i t stored
  | .cancel i =>
    match w.tasks[i]? with
    | none => w
    | some t => if t.over then w else w.put i { t with status := .cancelled }
  | .settle reply =>
    match w.phase with
    | .gathering => w.settle reply
    | _ => w
  | .crash => w.crashed

/-- The source of a key is what stands behind the prefix. -/
theorem sourceOf_key (s : SourceId) : sourceOf ("cerid:webhook_inbox:".toList ++ s.1) = s.1 := by
  have hnot : ∀ c ∈ s.1.reverse, decide (c ≠ ':') = true := by
    intro c hc
    rw [decide_eq_true_eq]
    rintro rfl
    exact s.2 (List.mem_reverse.mp hc)
  have hprefix : ("cerid:webhook_inbox:".toList).reverse.takeWhile (· ≠ ':') = [] := by decide
  unfold sourceOf
  rw [List.reverse_append, List.takeWhile_append_of_pos hnot, hprefix, List.append_nil,
    List.reverse_reverse]

/-! ## What becomes of the entries -/

/-- What came in for one source. -/
def ofSource (s : SourceId) (es : List Entry) : List Chars :=
  (es.filter fun e => e.1 = s).map Prod.snd

/-- How often an entry is there. -/
def times (e : Entry) (es : List Entry) : Nat := es.countP (· = e)

/-- What was queued for a source was drained in that order or is in its inbox.  What was
drained is handled by a task, was ingested, is in the dead letters or was lost. -/
structure World.Accounted (w : World) : Prop where
  acknowledged : ∀ e, times e w.acknowledged ≤ times e w.queued
  order : ∀ s, ofSource s w.queued = ofSource s w.drained ++ w.inbox s
  once : ∀ e, times e w.drained = times e (w.tasks.map Task.entry) + times e w.ingested +
    (w.deadletter e.1).countP (· = e.2) + times e w.lost

/-- A stop loses as many entries as a drain takes at most; the rest was lost one by one. -/
structure World.Bounded (maxPerRun : Int) (w : World) : Prop where
  lost : w.lost.length + w.tasks.countP (fun t => !t.gathered) ≤
    maxPerRun.toNat * w.stops + w.slips
  gathered : w.tasks.countP Task.gathered ≤ maxPerRun.toNat
  idle : w.phase = .idle → w.tasks.countP Task.gathered = 0
  collecting : ∀ keys domains drained, w.phase = .collecting keys domains drained →
    w.tasks.countP Task.gathered ≤ drained

section Ledger

variable {R : Readers} {maxPerRun : Int} {w : World} {t : Task} {i : Nat}

theorem times_append (e : Entry) (xs ys : List Entry) :
    times e (xs ++ ys) = times e xs + times e ys := List.countP_append

theorem times_cons (e x : Entry) (xs : List Entry) :
    times e (x :: xs) = times e xs + times e [x] := by
  unfold times
  rw [List.countP_cons, List.countP_singleton]

theorem ofSource_append (s : SourceId) (xs ys : List Entry) :
    ofSource s (xs ++ ys) = ofSource s xs ++ ofSource s ys := by
  unfold ofSource
  rw [List.filter_append, List.map_append]

theorem pushTo_apply (lists : SourceId → List Chars) (e : Entry) (s : SourceId) :
    pushTo lists e s = lists s ++ ofSource s [e] := by
  unfold pushTo ofSource
  by_cases h : e.1 = s
  · subst h
    simp
  · rw [Function.update_of_ne (Ne.symm h)]
    simp [h]

theorem countP_ofSource (e x : Entry) :
    (ofSource e.1 [x]).countP (· = e.2) = times e [x] := by
  unfold ofSource times
  by_cases h : x.1 = e.1
  · simp [h, Prod.ext_iff]
  · simp [h, Prod.ext_iff]

theorem split_at {tasks : List Task} (h : tasks[i]? = some t) :
    tasks = tasks.take i ++ t :: tasks.drop (i + 1) := by
  obtain ⟨hlt, rfl⟩ := List.getElem?_eq_some_iff.mp h
  rw [← List.drop_eq_getElem_cons hlt, List.take_append_drop]

/-! ## One step -/

/-- What each kind of step keeps, a step keeps. -/
theorem step_keeps {P : World → Prop} (hw : P w)
    (hreceive : ∀ e reply, P { w with
      inbox := if Reply.done reply then pushTo w.inbox e else w.inbox
      queued := w.queued ++ if Reply.done reply then [e] else []
      acknowledged := w.acknowledged ++ if reply = .ok then [e] else [] })
    (hbegin : w.phase = .idle → ∀ keys domains, P { w with phase := .collecting keys domains 0 })
    (hcollect : ∀ keys domains drained, w.phase = .collecting keys domains drained →
      ∀ reply, P (w.collect maxPerRun keys domains drained reply))
    (hadvance : ∀ i t stored, w.tasks[i]? = some t → P (w.advance R i t stored))
    (hcancel : ∀ i t, w.tasks[i]? = some t → P (w.put i { t with status := .cancelled }))
    (hsettle : ∀ reply, P (w.settle reply)) (hcrash : P w.crashed) (op : Op) :
    P (w.step R maxPerRun op) := by
  cases op with
  | receive hook signed payload now reply =>
    unfold World.step
    dsimp only
    split
    · exact hw
    · exact hreceive _ reply
  | begin keys domains =>
    unfold World.step
    dsimp only
    split
    · next hidle => exact hbegin hidle keys domains
    · exact hw
  | collect reply =>
    unfold World.step
    dsimp only
    split
    · next hphase => exact hcollect _ _ _ hphase reply
    · exact hw
  | advance i stored =>
    unfold World.step
    dsimp only
    split
    · exact hw
    · next t ht => exact hadvance i t stored ht
  | cancel i =>
    unfold World.step
    dsimp only
    split
    · exact hw
    · next t ht =>
      split
      · exact hw
      · exact hcancel i t ht
  | settle reply =>
    unfold World.step
    dsimp only
    split
    · exact hsettle reply
    · exact hw
  | crash => exact hcrash

/-- A task that is over and that no drain waits for goes, and its entry with it. -/
theorem put_cases (w : World) (i : Nat) (t : Task) :
    (t.gathered = false ∧ w.put i t =
      { w with tasks := w.tasks.take i ++ w.tasks.drop (i + 1), lost := w.lost ++ [t.entry] }) ∨
      w.put i t = { w with tasks := w.tasks.take i ++ t :: w.tasks.drop (i + 1) } := by
  unfold World.put
  dsimp only
  split
  · next h => exact Or.inl ⟨by simpa using h.2, rfl⟩
  · exact Or.inr rfl

/-- A task goes on, with a call or none, or ends, or stays where it is. -/
theorem advance_cases (w : World) (i : Nat) (t : Task) (stored : Bool) :
    w.advance R i t stored = w ∨
      w.advance R i t stored = { w with
        tasks := w.tasks.take i ++ w.tasks.drop (i + 1)
        ingested := w.ingested ++ [t.entry] } ∨
      ∃ made status, w.advance R i t stored =
        World.put { w with calls := w.calls ++ made } i { t with status := status } := by
  have hput : ∀ status, w.put i { t with status := status } =
      World.put { w with calls := w.calls ++ [] } i { t with status := status } := by
    intro status
    rw [List.append_nil]
  unfold World.advance
  split
  · split
    · exact Or.inr (Or.inr ⟨[], _, hput _⟩)
    · exact Or.inr (Or.inr ⟨[], _, hput _⟩)
  · split
    · exact Or.inr (Or.inl rfl)
    · exact Or.inr (Or.inr ⟨[], _, hput _⟩)
    · split
      · exact Or.inr (Or.inr ⟨_, _, rfl⟩)
      · exact Or.inr (Or.inr ⟨[], _, hput _⟩)
  · exact Or.inl rfl
  · exact Or.inl rfl

theorem World.Accounted.put (hw : w.Accounted) {t' : Task} (ht : w.tasks[i]? = some t)
    (hentry : t'.entry = t.entry) : (w.put i t').Accounted := by
  have htimes : ∀ e, times e (w.tasks.map Task.entry) =
      times e ((w.tasks.take i).map Task.entry) +
        (times e ((w.tasks.drop (i + 1)).map Task.entry) + times e [t.entry]) := by
    intro e
    have hsplit := congrArg (fun tasks => times e (tasks.map Task.entry)) (split_at ht)
    rw [hsplit, List.map_append, List.map_cons, times_append, times_cons]
  rcases put_cases w i t' with ⟨-, h⟩ | h
  · rw [h]
    refine ⟨hw.acknowledged, hw.order, fun e => ?_⟩
    have honce := hw.once e
    rw [htimes e] at honce
    dsimp only
    rw [List.map_append, times_append, times_append, hentry]
    omega
  · rw [h]
    refine ⟨hw.acknowledged, hw.order, fun e => ?_⟩
    have honce := hw.once e
    rw [htimes e] at honce
    dsimp only
    rw [List.map_append, List.map_cons, times_append, times_cons, hentry]
    omega

theorem World.Accounted.advance (hw : w.Accounted) (ht : w.tasks[i]? = some t) (stored : Bool) :
    (w.advance R i t stored).Accounted := by
  rcases advance_cases (R := R) w i t stored with h | h | ⟨made, status, h⟩
  · rw [h]
    exact hw
  · rw [h]
    refine ⟨hw.acknowledged, hw.order, fun e => ?_⟩
    have honce := hw.once e
    have hsplit := congrArg (fun tasks => times e (tasks.map Task.entry)) (split_at ht)
    dsimp only
    rw [hsplit, List.map_append, List.map_cons, times_append, times_cons] at honce
    rw [List.map_append, times_append, times_append]
    omega
  · rw [h]
    have hcalls : World.Accounted { w with calls := w.calls ++ made } :=
      ⟨hw.acknowledged, hw.order, hw.once⟩
    exact hcalls.put ht rfl

theorem times_over (e : Entry) (tasks : List Task) :
    times e (((tasks.filter fun t => !t.over).map fun t => { t with gathered := false }).map
      Task.entry) + times e ((tasks.filter Task.over).map Task.entry) =
        times e (tasks.map Task.entry) := by
  induction tasks with
  | nil => rfl
  | cons t rest ih =>
    rw [List.map_cons, times_cons, ← ih]
    cases hover : t.over with
    | true =>
      rw [List.filter_cons_of_neg (by simp [hover]), List.filter_cons_of_pos hover, List.map_cons,
        times_cons e t.entry]
      omega
    | false =>
      rw [List.filter_cons_of_pos (by simp [hover]), List.filter_cons_of_neg (by simp [hover]),
        List.map_cons, List.map_cons, times_cons e t.entry]
      omega

theorem World.Accounted.abandon (hw : w.Accounted) : w.abandon.Accounted := by
  refine ⟨hw.acknowledged, hw.order, fun e => ?_⟩
  have honce := hw.once e
  have hover := times_over e w.tasks
  unfold World.abandon
  dsimp only
  rw [times_append]
  omega

/-- What is taken out of an inbox has to be put somewhere. -/
theorem World.Accounted.taken (hw : w.Accounted) {s : SourceId} {raw : Chars} {more : List Chars}
    (hinbox : w.inbox s = raw :: more) {w' : World} (hsame : w'.acknowledged = w.acknowledged)
    (hqueued : w'.queued = w.queued) (hdrained : w'.drained = w.drained ++ [(s, raw)])
    (hmore : w'.inbox = Function.update w.inbox s more)
    (hput : ∀ e, times e (w'.tasks.map Task.entry) + times e w'.ingested +
        (w'.deadletter e.1).countP (· = e.2) + times e w'.lost =
      times e (w.tasks.map Task.entry) + times e w.ingested +
        (w.deadletter e.1).countP (· = e.2) + times e w.lost + times e [(s, raw)]) :
    w'.Accounted := by
  refine ⟨fun e => ?_, fun s' => ?_, fun e => ?_⟩
  · rw [hsame, hqueued]
    exact hw.acknowledged e
  · rw [hqueued, hdrained, hmore, hw.order, ofSource_append, List.append_assoc]
    by_cases hs : s' = s
    · subst hs
      rw [Function.update_self, hinbox]
      simp [ofSource]
    · rw [Function.update_of_ne hs]
      simp [ofSource, Ne.symm hs]
  · rw [hdrained, times_append, hw.once e]
    exact (hput e).symm

theorem World.Accounted.collect (hw : w.Accounted) (keys : List SourceId)
    (domains : SourceId → Option Chars) (drained : Nat) (reply : Reply) :
    (w.collect maxPerRun keys domains drained reply).Accounted := by
  unfold World.collect
  split
  · exact ⟨hw.acknowledged, hw.order, hw.once⟩
  · next s rest =>
    split
    · exact ⟨hw.acknowledged, hw.order, hw.once⟩
    · split
      · exact ⟨hw.acknowledged, hw.order, hw.once⟩
      · next raw more hinbox =>
        refine hw.taken hinbox rfl rfl rfl rfl fun e => ?_
        dsimp only [World.taken]
        rw [List.map_append, times_append, List.map_singleton]
        dsimp only
        omega
      · next raw more hinbox =>
        have hlost : World.Accounted { w.taken s raw more with
            lost := w.lost ++ [(s, raw)]
            slips := w.slips + 1 } := by
          refine hw.taken hinbox rfl rfl rfl rfl fun e => ?_
          dsimp only [World.taken]
          rw [times_append]
          omega
        exact hlost.abandon
      · exact hw.abandon

theorem World.Accounted.settle (hw : w.Accounted) (reply : Reply) : (w.settle reply).Accounted := by
  unfold World.settle
  split
  · exact hw
  · split
    · exact ⟨hw.acknowledged, hw.order, hw.once⟩
    · next t ht =>
      have htimes : ∀ e, times e (w.tasks.map Task.entry) =
          times e ((w.tasks.eraseP Task.gathered).map Task.entry) + times e [t.entry] := by
        intro e
        obtain ⟨hgathered, before, after, htasks, hnone⟩ := List.find?_eq_some_iff_append.mp ht
        have hbefore : ∀ x ∈ before, ¬ Task.gathered x = true := by
          intro x hx
          simpa using hnone x hx
        rw [htasks, List.eraseP_append_right _ hbefore, List.eraseP_cons_of_pos hgathered,
          List.map_append, List.map_append, List.map_cons, times_append, times_append, times_cons]
        omega
      dsimp only
      split
      · refine ⟨hw.acknowledged, hw.order, fun e => ?_⟩
        have honce := hw.once e
        rw [htimes e] at honce
        dsimp only
        rw [pushTo_apply, List.countP_append, countP_ofSource]
        omega
      · refine ⟨hw.acknowledged, hw.order, fun e => ?_⟩
        have honce := hw.once e
        rw [htimes e] at honce
        dsimp only
        rw [times_append]
        omega

/-- Every step keeps the account. -/
theorem World.Accounted.step (hw : w.Accounted) (op : Op) : (w.step R maxPerRun op).Accounted := by
  refine step_keeps hw (fun e reply => ?_) (fun _ _ _ => ⟨hw.acknowledged, hw.order, hw.once⟩)
    (fun keys domains drained _ reply => hw.collect keys domains drained reply)
    (fun i t stored ht => hw.advance ht stored) (fun i t ht => hw.put ht rfl) hw.settle ?_ op
  · refine ⟨fun e' => ?_, fun s => ?_, hw.once⟩
    · have hold := hw.acknowledged e'
      dsimp only
      rw [times_append, times_append]
      cases reply with
      | ok =>
        show _ + times e' [e] ≤ _ + times e' [e]
        omega
      | failed done =>
        show _ + times e' [] ≤ _
        exact Nat.le_add_right_of_le hold
    · have hold := hw.order s
      dsimp only
      rw [ofSource_append, hold]
      cases reply.done with
      | true =>
        rw [if_pos rfl, if_pos rfl, pushTo_apply, List.append_assoc]
      | false =>
        rw [if_neg Bool.false_ne_true, if_neg Bool.false_ne_true]
        exact List.append_nil _
  · refine ⟨hw.acknowledged, hw.order, fun e => ?_⟩
    have honce := hw.once e
    have hlost := times_append e w.lost (w.tasks.map Task.entry)
    show times e w.drained = 0 + times e w.ingested + (w.deadletter e.1).countP (· = e.2) +
      times e (w.lost ++ w.tasks.map Task.entry)
    omega

/-! ## What is lost -/

theorem length_tasks (tasks : List Task) :
    tasks.length = tasks.countP Task.gathered + tasks.countP fun t => !t.gathered := by
  rw [List.length_eq_countP_add_countP Task.gathered]
  congr 2
  funext t
  cases t.gathered <;> rfl

/-- What happens within a phase loses no more than it says. -/
theorem World.Bounded.of_le (hw : w.Bounded maxPerRun) {w' : World} (hphase : w'.phase = w.phase)
    (hstops : w'.stops = w.stops)
    (hgathered : w'.tasks.countP Task.gathered ≤ w.tasks.countP Task.gathered)
    (hlost : w'.lost.length + w'.tasks.countP (fun t => !t.gathered) + w.slips ≤
      w.lost.length + w.tasks.countP (fun t => !t.gathered) + w'.slips) :
    w'.Bounded maxPerRun where
  lost := by
    have hold := hw.lost
    rw [hstops]
    omega
  gathered := hgathered.trans hw.gathered
  idle h := Nat.le_zero.mp (hgathered.trans (Nat.le_of_eq (hw.idle (hphase ▸ h))))
  collecting keys domains drained h :=
    hgathered.trans (hw.collecting keys domains drained (hphase ▸ h))

theorem World.Bounded.put (hw : w.Bounded maxPerRun) {t' : Task} (ht : w.tasks[i]? = some t)
    (hsame : t'.gathered = t.gathered) : (w.put i t').Bounded maxPerRun := by
  have hcount : ∀ keep : Task → Bool, keep t' = keep t → w.tasks.countP keep =
      (w.tasks.take i).countP keep + (w.tasks.drop (i + 1)).countP keep +
        if keep t' then 1 else 0 := by
    intro keep hkeep
    have hsplit := congrArg (List.countP keep) (split_at ht)
    rw [hsplit, List.countP_append, List.countP_cons, hkeep]
    omega
  have hgathered := hcount Task.gathered hsame
  have hothers := hcount (fun t => !t.gathered) (congrArg (!·) hsame)
  rcases put_cases w i t' with ⟨hnot, h⟩ | h
  · rw [h]
    rw [if_pos (by rw [hnot]; rfl)] at hothers
    refine hw.of_le rfl rfl ?_ ?_
    · dsimp only
      rw [List.countP_append]
      omega
    · dsimp only
      rw [List.countP_append, List.length_append, List.length_singleton]
      omega
  · rw [h]
    refine hw.of_le rfl rfl ?_ ?_
    · dsimp only
      rw [List.countP_append, List.countP_cons]
      omega
    · dsimp only
      rw [List.countP_append, List.countP_cons]
      omega

theorem World.Bounded.advance (hw : w.Bounded maxPerRun) (ht : w.tasks[i]? = some t)
    (stored : Bool) : (w.advance R i t stored).Bounded maxPerRun := by
  rcases advance_cases (R := R) w i t stored with h | h | ⟨made, status, h⟩
  · rw [h]
    exact hw
  · rw [h]
    have hless : ∀ keep : Task → Bool,
        (w.tasks.take i ++ w.tasks.drop (i + 1)).countP keep ≤ w.tasks.countP keep := by
      intro keep
      have hsplit := congrArg (List.countP keep) (split_at ht)
      rw [hsplit, List.countP_append, List.countP_append, List.countP_cons]
      omega
    refine hw.of_le rfl rfl (hless _) ?_
    have hothers := hless fun t => !t.gathered
    dsimp only
    omega
  · rw [h]
    have hcalls : World.Bounded maxPerRun { w with calls := w.calls ++ made } :=
      hw.of_le rfl rfl (Nat.le_refl _) (Nat.le_refl _)
    exact hcalls.put ht rfl

/-- A drain that is left has taken what a drain takes at most. -/
theorem World.Bounded.abandon (hw : w.Bounded maxPerRun) : w.abandon.Bounded maxPerRun := by
  have hnone : w.abandon.tasks.countP Task.gathered = 0 := by
    rw [List.countP_eq_zero]
    intro t ht
    obtain ⟨t', -, rfl⟩ := List.mem_map.mp ht
    exact Bool.false_ne_true
  refine ⟨?_, Nat.le_of_eq hnone |>.trans (Nat.zero_le _), fun _ => hnone,
    fun _ _ _ h => by cases h⟩
  have hall := length_tasks w.abandon.tasks
  rw [hnone] at hall
  have hlen : w.abandon.tasks.length + (w.tasks.filter Task.over).length = w.tasks.length := by
    unfold World.abandon
    rw [List.length_map, Nat.add_comm]
    exact (List.length_eq_length_filter_add Task.over).symm
  have hold := hw.lost
  have hgathered := hw.gathered
  have htasks := length_tasks w.tasks
  show (w.lost ++ (w.tasks.filter Task.over).map Task.entry).length + _ ≤
    maxPerRun.toNat * (w.stops + 1) + w.slips
  rw [List.length_append, List.length_map, Nat.mul_succ]
  omega

theorem World.Bounded.collect (hw : w.Bounded maxPerRun) {keys : List SourceId}
    {domains : SourceId → Option Chars} {drained : Nat}
    (hphase : w.phase = .collecting keys domains drained) (reply : Reply) :
    (w.collect maxPerRun keys domains drained reply).Bounded maxPerRun := by
  have htaken := hw.collecting keys domains drained hphase
  unfold World.collect
  split
  · exact ⟨hw.lost, hw.gathered, fun h => (by cases h), fun _ _ _ h => by cases h⟩
  · next s rest =>
    split
    · exact ⟨hw.lost, hw.gathered, fun h => (by cases h), fun _ _ _ h => by cases h⟩
    · next hmore =>
      split
      · refine ⟨hw.lost, hw.gathered, fun h => (by cases h), fun _ _ _ h => ?_⟩
        cases h
        exact htaken
      · have hone : ∀ raw domain, List.countP Task.gathered
            (w.tasks ++ [Task.mk (s, raw) domain true .waiting]) =
              w.tasks.countP Task.gathered + 1 := by
          intro raw domain
          rw [List.countP_append]
          rfl
        refine ⟨?_, ?_, fun h => (by cases h), fun _ _ _ h => ?_⟩
        · dsimp only [World.taken]
          rw [List.countP_append]
          exact hw.lost
        · dsimp only
          rw [hone]
          omega
        · cases h
          dsimp only
          rw [hone]
          omega
      · next raw more _ =>
        have hslip : World.Bounded maxPerRun { w.taken s raw more with
            lost := w.lost ++ [(s, raw)]
            slips := w.slips + 1 } := by
          refine hw.of_le rfl rfl (Nat.le_refl _) ?_
          dsimp only [World.taken]
          rw [List.length_append, List.length_singleton]
          omega
        exact hslip.abandon
      · exact hw.abandon

theorem World.Bounded.settle (hw : w.Bounded maxPerRun) (reply : Reply) :
    (w.settle reply).Bounded maxPerRun := by
  unfold World.settle
  split
  · exact hw
  · split
    · next hnone =>
      refine ⟨hw.lost, hw.gathered, fun _ => ?_, fun _ _ _ h => by cases h⟩
      rw [List.countP_eq_zero]
      exact List.find?_eq_none.mp hnone
    · next t ht =>
      have hsub := List.eraseP_sublist (p := Task.gathered) (l := w.tasks)
      have hgathered := hsub.countP_le (p := Task.gathered)
      have hothers := hsub.countP_le (p := fun t => !t.gathered)
      dsimp only
      split
      · refine hw.of_le rfl rfl hgathered ?_
        dsimp only
        omega
      · refine hw.of_le rfl rfl hgathered ?_
        dsimp only
        rw [List.length_append, List.length_singleton]
        omega

theorem World.Bounded.step (hw : w.Bounded maxPerRun) (op : Op) :
    (w.step R maxPerRun op).Bounded maxPerRun := by
  refine step_keeps hw (fun _ _ => hw.of_le rfl rfl (Nat.le_refl _) (Nat.le_refl _))
    (fun hidle keys domains => ?_) (fun _ _ _ hphase reply => hw.collect hphase reply)
    (fun i t stored ht => hw.advance ht stored) (fun i t ht => hw.put ht rfl) hw.settle ?_ op
  · refine ⟨hw.lost, hw.gathered, fun h => (by cases h), fun _ _ _ h => ?_⟩
    cases h
    exact Nat.le_of_eq (hw.idle hidle)
  · refine ⟨?_, Nat.zero_le _, fun _ => rfl, fun _ _ _ h => by cases h⟩
    have hold := hw.lost
    have hgathered := hw.gathered
    have htasks := length_tasks w.tasks
    show (w.lost ++ w.tasks.map Task.entry).length + 0 ≤ maxPerRun.toNat * (w.stops + 1) + w.slips
    rw [List.length_append, List.length_map, Nat.mul_succ]
    omega

/-! ## What is ingested -/

theorem callsOf_cons {source : SourceId} {domain text : Chars} {art : Json} (rest : List Json)
    (h : content R art = some text) : callsOf R source domain (art :: rest) =
      (callsOf R source domain rest).map fun calls =>
        if text = [] then calls else callOf source domain text art :: calls := by
  rw [callsOf, h]

theorem turn_ends {source : SourceId} {domain : Chars} {arts : List Json}
    (h : turn R source domain arts = .ends) : callsOf R source domain arts = some [] := by
  induction arts with
  | nil => rfl
  | cons art rest ih =>
    unfold turn at h
    split at h
    · cases h
    · next text htext =>
      split at h
      · next hempty =>
        rw [callsOf_cons rest htext, ih h]
        exact congrArg some (if_pos hempty)
      · cases h

/-- The call is for an article of the list. -/
def ForArticle (R : Readers) (source : SourceId) (arts : List Json) (call : Call) : Prop :=
  ∃ art ∈ arts, ∃ domain text, content R art = some text ∧ text ≠ [] ∧
    call = callOf source domain text art

theorem turn_calls {source : SourceId} {domain : Chars} {arts rest : List Json} {call : Call}
    (h : turn R source domain arts = .calls call rest) :
    callsOf R source domain arts = (callsOf R source domain rest).map (call :: ·) ∧
      rest <:+ arts ∧ ForArticle R source arts call := by
  induction arts with
  | nil => cases h
  | cons art more ih =>
    unfold turn at h
    split at h
    · cases h
    · next text htext =>
      split at h
      · next hempty =>
        obtain ⟨hcalls, hrest, art', hart, hfor⟩ := ih h
        refine ⟨?_, hrest.trans (List.suffix_cons art more), art', List.mem_cons_of_mem art hart,
          hfor⟩
        rw [callsOf_cons more htext, ← hcalls]
        simp only [hempty, if_true, Option.map_id']
      · next hne =>
        cases h
        refine ⟨?_, List.suffix_cons art rest, art, List.mem_cons_self, domain, text, htext, hne,
          rfl⟩
        rw [callsOf_cons rest htext]
        simp only [hne, if_false]

/-- The entry of a task was drained, and one that runs has made the calls for the articles
behind it. -/
structure Task.Sound (R : Readers) (drained : List Entry) (calls : List Call) (t : Task) :
    Prop where
  drained : t.entry ∈ drained
  running : ∀ rest, t.status = .running rest → ∃ arts made, articles R t.entry.2 = some arts ∧
    rest <:+ arts ∧ made.Sublist calls ∧ callsOf R t.entry.1 t.domain arts =
      (callsOf R t.entry.1 t.domain rest).map (made ++ ·)

/-- An entry that was ingested had all its articles ingested, in their order, and nothing is
ingested but articles of entries. -/
structure World.Handed (R : Readers) (w : World) : Prop where
  tasks : ∀ t ∈ w.tasks, t.Sound R w.drained w.calls
  ingested : ∀ e ∈ w.ingested, ∃ domain arts calls, articles R e.2 = some arts ∧
    callsOf R e.1 domain arts = some calls ∧ calls.Sublist w.calls
  calls : ∀ call ∈ w.calls, ∃ e ∈ w.drained, ∃ arts, articles R e.2 = some arts ∧
    ForArticle R e.1 arts call

theorem Task.Sound.mono {drained : List Entry} {calls : List Call}
    (h : t.Sound R drained calls) (e : List Entry) (c : List Call) :
    t.Sound R (drained ++ e) (calls ++ c) := by
  refine ⟨List.mem_append_left _ h.drained, fun rest hrest => ?_⟩
  obtain ⟨arts, made, harts, hsuffix, hmade, heq⟩ := h.running rest hrest
  exact ⟨arts, made, harts, hsuffix, hmade.trans (List.sublist_append_left _ _), heq⟩

theorem mem_around {t' : Task} (h : t' ∈ w.tasks.take i ++ w.tasks.drop (i + 1)) :
    t' ∈ w.tasks := by
  rcases List.mem_append.mp h with h | h
  · exact List.mem_of_mem_take h
  · exact List.mem_of_mem_drop h

theorem World.Handed.put (hw : w.Handed R) (ht : t.Sound R w.drained w.calls) :
    (w.put i t).Handed R := by
  rcases put_cases w i t with ⟨-, h⟩ | h
  · rw [h]
    exact ⟨fun t' ht' => hw.tasks t' (mem_around ht'), hw.ingested, hw.calls⟩
  · rw [h]
    refine ⟨fun t' ht' => ?_, hw.ingested, hw.calls⟩
    rcases List.mem_append.mp ht' with ht' | ht'
    · exact hw.tasks t' (List.mem_of_mem_take ht')
    · rcases List.mem_cons.mp ht' with rfl | ht'
      · exact ht
      · exact hw.tasks t' (List.mem_of_mem_drop ht')

/-- A call that returned, and the task behind it. -/
theorem World.Handed.called (hw : w.Handed R) (ht : t.Sound R w.drained w.calls)
    {rest rest' : List Json} (hstatus : t.status = .running rest) {call : Call}
    (hturn : turn R t.entry.1 t.domain rest = .calls call rest') :
    World.Handed R
      (World.put { w with calls := w.calls ++ [call] } i { t with status := .running rest' }) := by
  obtain ⟨arts, made, harts, hsuffix, hmade, heq⟩ := ht.running rest hstatus
  obtain ⟨hcalls, hrest, art, hart, hfor⟩ := turn_calls hturn
  have hmore : World.Handed R { w with calls := w.calls ++ [call] } := by
    refine ⟨fun t' ht' => ?_, fun e he => ?_, fun call' hcall' => ?_⟩
    · have hold := (hw.tasks t' ht').mono [] [call]
      rwa [List.append_nil] at hold
    · obtain ⟨domain, arts', calls, harts', hcalls', hsub⟩ := hw.ingested e he
      exact ⟨domain, arts', calls, harts', hcalls', hsub.trans (List.sublist_append_left _ _)⟩
    · rcases List.mem_append.mp hcall' with hcall' | hcall'
      · exact hw.calls call' hcall'
      · rw [List.mem_singleton.mp hcall']
        exact ⟨t.entry, ht.drained, arts, harts, art, hsuffix.subset hart, hfor⟩
  refine hmore.put ⟨ht.drained, fun rest'' hrest'' => ?_⟩
  cases hrest''
  refine ⟨arts, made ++ [call], harts, hrest.trans hsuffix, hmade.append (List.Sublist.refl _), ?_⟩
  rw [heq, hcalls, Option.map_map]
  congr 1
  funext calls
  exact (List.append_assoc made [call] calls).symm

theorem World.Handed.advance (hw : w.Handed R) (ht : w.tasks[i]? = some t) (stored : Bool) :
    (w.advance R i t stored).Handed R := by
  have hold := hw.tasks t (List.mem_of_getElem? ht)
  have hfailed : (w.put i { t with status := .failed }).Handed R :=
    hw.put ⟨hold.drained, fun _ h => by cases h⟩
  unfold World.advance
  split
  · split
    · exact hfailed
    · next arts harts =>
      refine hw.put ⟨hold.drained, fun rest hrest => ?_⟩
      cases hrest
      exact ⟨arts, [], harts, List.suffix_refl _, List.nil_sublist _, Option.map_id'.symm⟩
  · next rest hstatus =>
    split
    · next hturn =>
      obtain ⟨arts, made, harts, -, hmade, heq⟩ := hold.running rest hstatus
      refine ⟨fun t' ht' => hw.tasks t' (mem_around ht'), fun e he => ?_, hw.calls⟩
      rcases List.mem_append.mp he with he | he
      · exact hw.ingested e he
      · rw [List.mem_singleton.mp he]
        rw [turn_ends hturn, Option.map_some, List.append_nil] at heq
        exact ⟨t.domain, arts, made, harts, heq, hmade⟩
    · exact hfailed
    · next call rest' hturn =>
      split
      · exact hw.called hold hstatus hturn
      · exact hfailed
  · exact hw
  · exact hw

theorem World.Handed.abandon (hw : w.Handed R) : w.abandon.Handed R := by
  refine ⟨fun t ht => ?_, hw.ingested, hw.calls⟩
  obtain ⟨t', ht', rfl⟩ := List.mem_map.mp ht
  have hold := hw.tasks t' (List.mem_of_mem_filter ht')
  exact ⟨hold.drained, hold.running⟩

/-- An entry that is taken has done nothing yet. -/
theorem World.Handed.drained (hw : w.Handed R) {w' : World} {e : Entry}
    (hdrained : w'.drained = w.drained ++ [e]) (hcalls : w'.calls = w.calls)
    (hingested : w'.ingested = w.ingested)
    (htasks : ∀ t ∈ w'.tasks, t ∈ w.tasks ∨ t.entry = e ∧ t.status = .waiting) :
    w'.Handed R := by
  refine ⟨fun t ht => ?_, ?_, fun call hcall => ?_⟩
  · rw [hdrained, hcalls]
    rcases htasks t ht with ht | ⟨rfl, hwaiting⟩
    · have hold := (hw.tasks t ht).mono [e] []
      rwa [List.append_nil] at hold
    · exact ⟨List.mem_append_right _ List.mem_cons_self,
        fun rest hrest => by rw [hwaiting] at hrest; cases hrest⟩
  · rw [hcalls, hingested]
    exact hw.ingested
  · obtain ⟨e', he', hfor⟩ := hw.calls call (hcalls ▸ hcall)
    exact ⟨e', hdrained ▸ List.mem_append_left _ he', hfor⟩

theorem World.Handed.collect (hw : w.Handed R) (keys : List SourceId)
    (domains : SourceId → Option Chars) (drained : Nat) (reply : Reply) :
    (w.collect maxPerRun keys domains drained reply).Handed R := by
  have hsame : ∀ phase, World.Handed R { w with phase := phase } :=
    fun _ => ⟨hw.tasks, hw.ingested, hw.calls⟩
  unfold World.collect
  split
  · exact hsame _
  · split
    · exact hsame _
    · split
      · exact hsame _
      · refine hw.drained rfl rfl rfl fun t ht => ?_
        rcases List.mem_append.mp ht with ht | ht
        · exact Or.inl ht
        · rw [List.mem_singleton.mp ht]
          exact Or.inr ⟨rfl, rfl⟩
      · exact World.Handed.abandon (hw.drained rfl rfl rfl fun t ht => Or.inl ht)
      · exact hw.abandon

theorem World.Handed.settle (hw : w.Handed R) (reply : Reply) : (w.settle reply).Handed R := by
  unfold World.settle
  split
  · exact hw
  · split
    · exact ⟨hw.tasks, hw.ingested, hw.calls⟩
    · have hfewer : ∀ t ∈ w.tasks.eraseP Task.gathered, t.Sound R w.drained w.calls :=
        fun t ht => hw.tasks t (List.mem_of_mem_eraseP ht)
      dsimp only
      split
      · exact ⟨hfewer, hw.ingested, hw.calls⟩
      · exact ⟨hfewer, hw.ingested, hw.calls⟩

theorem World.Handed.step (hw : w.Handed R) (op : Op) : (w.step R maxPerRun op).Handed R := by
  refine step_keeps hw (fun _ _ => ⟨hw.tasks, hw.ingested, hw.calls⟩)
    (fun _ _ _ => ⟨hw.tasks, hw.ingested, hw.calls⟩)
    (fun keys domains drained _ reply => hw.collect keys domains drained reply)
    (fun i t stored ht => hw.advance ht stored) (fun i t ht => ?_) hw.settle ?_ op
  · exact hw.put ⟨(hw.tasks t (List.mem_of_getElem? ht)).drained, fun _ h => by cases h⟩
  · exact ⟨fun t ht => absurd ht List.not_mem_nil, hw.ingested, hw.calls⟩

end Ledger

/-! ## Every run -/

section Runs

variable (R : Readers) (maxPerRun : Int) (ops : List Op)

/-- The account holds at every moment, in whatever order the steps come. -/
theorem entries_accounted : (ops.foldl (World.step R maxPerRun) .start).Accounted := by
  refine foldl_invariant (World.step R maxPerRun) World.Accounted
    (fun w op hw _ => hw.step op) ?_ (p := fun _ => True) fun _ _ => trivial
  exact ⟨fun _ => Nat.le_refl _, fun _ => rfl, fun _ => rfl⟩

/-- What is lost is lost by stops, as many entries each as a drain takes at most, or one by
one; and no more tasks are gathered at once than a drain takes. -/
theorem losses_bounded : (ops.foldl (World.step R maxPerRun) .start).Bounded maxPerRun := by
  refine foldl_invariant (World.step R maxPerRun) (World.Bounded maxPerRun)
    (fun w op hw _ => hw.step op) ?_ (p := fun _ => True) fun _ _ => trivial
  exact ⟨Nat.zero_le _, Nat.zero_le _, fun _ => rfl, fun _ _ _ _ => Nat.zero_le _⟩

/-- At every moment the calls are those of the entries that were ingested, and of entries that
were begun. -/
theorem entries_handed : (ops.foldl (World.step R maxPerRun) .start).Handed R := by
  refine foldl_invariant (World.step R maxPerRun) (World.Handed R)
    (fun w op hw _ => hw.step op) ?_ (p := fun _ => True) fun _ _ => trivial
  exact ⟨fun _ h => absurd h List.not_mem_nil, fun _ h => absurd h List.not_mem_nil,
    fun _ h => absurd h List.not_mem_nil⟩

end Runs

end Cerid.Sources.Webhook
