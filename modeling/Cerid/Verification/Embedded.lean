import Cerid.Lib.Dict
import Cerid.Verification.Verdict

/-!
# Reports embedded in conversations

A conversation from an older client embeds its verification reports.  They move to the graph,
which holds one report for a conversation and a message, and the conversation is stored without
them.
-/

namespace Cerid.Verification

/-- `claims` is `none` where it is no list, and so is an item of it that is no mapping. -/
structure EmbeddedReport where
  claims : Option (List (Option Verdict))
  skipped : Bool
deriving DecidableEq

structure Message where
  role : Option String
  id : Option String
deriving DecidableEq

/-- An embedded field is `none` where the key is missing and `some none` where its value is no
mapping; a message or a report that is no mapping is `none`. -/
structure Conversation where
  id : String
  messages : List (Option Message)
  verificationReports : Option (Option (Dict String (Option EmbeddedReport)))
  verificationReport : Option (Option EmbeddedReport)

structure StoredReport where
  claims : List Verdict
  counts : Counts
  overallScore : ℚ

/-- The reports of the graph, by conversation and message. -/
abbrev ReportGraph := Dict (String × String) StoredReport

def ReportGraph.Holds (graph : ReportGraph) (conversationId messageId : String) : Prop :=
  (graph.get? (conversationId, messageId)).isSome

instance (graph : ReportGraph) (conversationId messageId : String) :
    Decidable (graph.Holds conversationId messageId) := inferInstanceAs (Decidable (_ = true))

/-- What a write to the graph comes to: it may fail, and also be done and the answer be lost. -/
inductive Outcome
  | done
  | failed
  | lost
deriving DecidableEq

/-- The calls of one move.  Those that are about a report are by its message. -/
structure Calls where
  connectFails : Bool
  forgottenAtGet : String → Bool
  getFails : String → Bool
  forgottenAtSave : String → Bool
  save : String → Outcome

def maxClaims : Nat := 200

/-- `^[A-Za-z0-9_\-]{1,128}$`; the end of the pattern is also met before a last line feed. -/
def isMessageId (messageId : String) : Bool :=
  let chars := messageId.toList
  let chars := if chars.getLast? = some '\n' then chars.dropLast else chars
  decide (1 ≤ chars.length) && decide (chars.length ≤ 128) &&
    chars.all fun c =>
      ('A' ≤ c && c ≤ 'Z') || ('a' ≤ c && c ≤ 'z') || ('0' ≤ c && c ≤ '9') || c = '_' || c = '-'

/-- The id of the last assistant message, unless it has none. -/
def lastAssistantId (conversation : Conversation) : Option String :=
  let assistant := conversation.messages.reduceOption.filter fun m => m.role = some "assistant"
  (assistant.getLast?.bind Message.id).filter fun id => id ≠ ""

/-- The embedded reports by message. -/
def embedded (conversation : Conversation) : Dict String (Option EmbeddedReport) :=
  let found := match conversation.verificationReports with
    | some (some reports) => reports
    | _ => Dict.empty
  match conversation.verificationReport with
  | some (some legacy) =>
    match lastAssistantId conversation with
    | some messageId => found.setDefault messageId (some legacy)
    | none => found
  | _ => found

/-- The claims of a report that the graph can take. -/
def acceptedClaims (messageId : String) (report : Option EmbeddedReport) :
    Option (List (Option Verdict)) :=
  report.bind fun report => report.claims.filter fun claims =>
    isMessageId messageId && claims ≠ [] && decide (claims.length ≤ maxClaims) && !report.skipped

variable (calls : Calls)

/-- `none` where the call raises. -/
def getVerificationReport (graph : ReportGraph) (conversationId messageId : String) :
    Option (Option StoredReport) :=
  if calls.forgottenAtGet messageId then some none
  else if calls.getFails messageId then none
  else some (graph.get? (conversationId, messageId))

/-- Whether an id is returned, and the graph after the call. -/
def saveVerificationReport (graph : ReportGraph) (conversationId messageId : String)
    (report : StoredReport) : Option Bool × ReportGraph :=
  if calls.forgottenAtSave messageId then (some false, graph)
  else
    match calls.save messageId with
    | .done => (some true, graph.set (conversationId, messageId) report)
    | .failed => (none, graph)
    | .lost => (none, graph.set (conversationId, messageId) report)

def save (graph : ReportGraph) (conversationId messageId : String)
    (report : Option EmbeddedReport) : Option Bool × ReportGraph :=
  match acceptedClaims messageId report with
  | none => (some false, graph)
  | some claims =>
    match getVerificationReport calls graph conversationId messageId with
    | none => (none, graph)
    | some (some _) => (some true, graph)
    | some none =>
      let claims := claims.reduceOption
      let (counts, overall) := summarizeClaims (claims.map some)
      saveVerificationReport calls graph conversationId messageId
        { claims := claims, counts := counts, overallScore := overall }

/-- The loop over the reports: the ids of the messages whose report is held. -/
def storeReports (conversationId : String) :
    List (String × Option EmbeddedReport) → ReportGraph → Option (List String) × ReportGraph
  | [], graph => (some [], graph)
  | (messageId, report) :: rest, graph =>
    match save calls graph conversationId messageId report with
    | (none, graph) => (none, graph)
    | (some held, graph) =>
      let (ids, graph) := storeReports conversationId rest graph
      (ids.map fun ids => if held then messageId :: ids else ids, graph)

/-- The conversation to store, and the graph. -/
def absorbEmbeddedReports (conversation : Conversation) (graph : ReportGraph) :
    Conversation × ReportGraph :=
  if conversation.verificationReports = none ∧ conversation.verificationReport = none then
    (conversation, graph)
  else if calls.connectFails then (conversation, graph)
  else
    match storeReports calls conversation.id (embedded conversation).items graph with
    | (none, graph) => (conversation, graph)
    | (some _, graph) =>
      ({ conversation with verificationReports := none, verificationReport := none }, graph)

/-- The call on a report raises. -/
def Raises (graph : ReportGraph) (conversationId messageId : String)
    (report : Option EmbeddedReport) : Prop :=
  acceptedClaims messageId report ≠ none ∧
    (calls.forgottenAtGet messageId = false ∧ calls.getFails messageId = true ∨
      (calls.forgottenAtGet messageId = true ∨ ¬ graph.Holds conversationId messageId) ∧
        calls.forgottenAtSave messageId = false ∧ calls.save messageId ≠ .done)

/-- The graph takes the report. -/
def Takes (messageId : String) (report : Option EmbeddedReport) : Prop :=
  acceptedClaims messageId report ≠ none ∧ calls.forgottenAtSave messageId = false

theorem ReportGraph.holds_set (graph : ReportGraph) (report : StoredReport)
    (conversationId messageId m : String) :
    ReportGraph.Holds (graph.set (conversationId, messageId) report) conversationId m ↔
      graph.Holds conversationId m ∨ m = messageId := by
  rw [ReportGraph.Holds, Dict.get?_set, ReportGraph.Holds]
  by_cases h : m = messageId
  · subst h
    simp
  · have hne : (conversationId, m) ≠ (conversationId, messageId) := fun he => h (Prod.ext_iff.mp he).2
    simp [hne, h]

/-- A call on the report of a message raises, or the graph has the message afterwards if it had
it or takes the report. -/
def Settles (raises takes : Prop) (graph : ReportGraph) (conversationId messageId : String)
    (result : Option Bool × ReportGraph) : Prop :=
  raises ∧ result.1 = none ∨
    ¬ raises ∧ result.1 ≠ none ∧ ∀ m, result.2.Holds conversationId m ↔
      graph.Holds conversationId m ∨ m = messageId ∧ takes

theorem settles_saveVerificationReport (graph : ReportGraph) (conversationId messageId : String)
    (report : StoredReport) :
    Settles (calls.forgottenAtSave messageId = false ∧ calls.save messageId ≠ .done)
      (calls.forgottenAtSave messageId = false) graph conversationId messageId
      (saveVerificationReport calls graph conversationId messageId report) := by
  rw [saveVerificationReport, Settles]
  cases calls.forgottenAtSave messageId with
  | true => simp
  | false =>
    cases calls.save messageId with
    | done =>
      refine Or.inr ⟨fun h => h.2 rfl, Option.some_ne_none _, fun m => ?_⟩
      rw [and_iff_left rfl]
      exact ReportGraph.holds_set graph report conversationId messageId m
    | failed => exact Or.inl ⟨⟨rfl, nofun⟩, rfl⟩
    | lost => exact Or.inl ⟨⟨rfl, nofun⟩, rfl⟩

theorem settles_save (graph : ReportGraph) (conversationId messageId : String)
    (report : Option EmbeddedReport) :
    Settles (Raises calls graph conversationId messageId report) (Takes calls messageId report)
      graph conversationId messageId (save calls graph conversationId messageId report) := by
  rw [save, Raises, Takes]
  cases acceptedClaims messageId report with
  | none => simp [Settles]
  | some claims =>
    simp only [ne_eq, reduceCtorEq, not_false_eq_true, true_and]
    rw [getVerificationReport]
    have hwrite := settles_saveVerificationReport calls graph conversationId messageId
      { claims := claims.reduceOption, counts := (summarizeClaims (claims.reduceOption.map some)).1,
        overallScore := (summarizeClaims (claims.reduceOption.map some)).2 }
    cases hget : calls.forgottenAtGet messageId with
    | true => simpa [hget] using hwrite
    | false =>
      cases calls.getFails messageId with
      | true => simp [Settles]
      | false =>
        cases hheld : graph.get? (conversationId, messageId) with
        | none =>
          have hnot : ¬ graph.Holds conversationId messageId := by
            rw [ReportGraph.Holds, hheld]
            exact Bool.false_ne_true
          simpa [hnot] using hwrite
        | some stored =>
          have hholds : graph.Holds conversationId messageId := by
            rw [ReportGraph.Holds, hheld]
            rfl
          refine Or.inr ⟨by simp [hholds], Option.some_ne_none _, fun m => ?_⟩
          refine ⟨Or.inl, fun h => h.elim id fun h => ?_⟩
          rw [h.1]
          exact hholds

/-- Whether a call raises is up to what the graph holds for its message. -/
theorem Raises.congr {graph graph' : ReportGraph} {conversationId messageId : String}
    (h : graph'.Holds conversationId messageId ↔ graph.Holds conversationId messageId)
    (report : Option EmbeddedReport) :
    Raises calls graph' conversationId messageId report ↔
      Raises calls graph conversationId messageId report := by
  rw [Raises, Raises, h]

/-- The loop over the reports: it raises where the call on one of them does, and otherwise the
graph has the messages whose report it had or takes. -/
theorem storeReports_spec (conversationId : String) (reports : List (String × Option EmbeddedReport))
    (hnodup : (reports.map Prod.fst).Nodup) (graph : ReportGraph) :
    (∃ p ∈ reports, Raises calls graph conversationId p.1 p.2) ∧
      (storeReports calls conversationId reports graph).1 = none ∨
    (∀ p ∈ reports, ¬ Raises calls graph conversationId p.1 p.2) ∧
      (storeReports calls conversationId reports graph).1 ≠ none ∧
      ∀ m, (storeReports calls conversationId reports graph).2.Holds conversationId m ↔
        graph.Holds conversationId m ∨ ∃ p ∈ reports, p.1 = m ∧ Takes calls p.1 p.2 := by
  induction reports generalizing graph with
  | nil => exact Or.inr ⟨nofun, Option.some_ne_none _, fun m => by simp [storeReports]⟩
  | cons head rest ih =>
    obtain ⟨messageId, report⟩ := head
    rw [List.map_cons, List.nodup_cons] at hnodup
    rw [storeReports]
    have hsave := settles_save calls graph conversationId messageId report
    rcases hresult : save calls graph conversationId messageId report with ⟨held, graph'⟩
    rw [hresult] at hsave
    rcases hsave with ⟨hraises, hnone⟩ | ⟨hquiet, hsome, hholds⟩
    · cases hnone
      exact Or.inl ⟨⟨_, List.mem_cons_self, hraises⟩, rfl⟩
    · obtain ⟨held, rfl⟩ := Option.ne_none_iff_exists'.mp hsome
      -- The messages of the reports that are left are other ones.
      have hrest : ∀ p ∈ rest, Raises calls graph' conversationId p.1 p.2 ↔
          Raises calls graph conversationId p.1 p.2 := by
        intro p hp
        refine Raises.congr calls ((hholds p.1).trans (or_iff_left fun h => ?_)) p.2
        exact hnodup.1 (List.mem_map.mpr ⟨p, hp, h.1⟩)
      rcases ih hnodup.2 graph' with ⟨⟨p, hp, hraises⟩, hnone⟩ | ⟨hquiet', hsome', hholds'⟩
      · refine Or.inl ⟨⟨p, List.mem_cons_of_mem _ hp, (hrest p hp).mp hraises⟩, ?_⟩
        show Option.map _ (storeReports calls conversationId rest graph').1 = none
        rw [hnone]
        rfl
      · refine Or.inr ⟨?_, ?_, fun m => ?_⟩
        · intro p hp
          rcases List.mem_cons.mp hp with rfl | hmem
          · exact hquiet
          · exact fun hraises => hquiet' p hmem ((hrest p hmem).mpr hraises)
        · show Option.map _ (storeReports calls conversationId rest graph').1 ≠ none
          rw [ne_eq, Option.map_eq_none_iff]
          exact hsome'
        · show (storeReports calls conversationId rest graph').2.Holds conversationId m ↔ _
          rw [hholds', hholds, or_assoc]
          refine or_congr_right ⟨?_, ?_⟩
          · rintro (⟨rfl, htakes⟩ | ⟨p, hp, htakes⟩)
            · exact ⟨_, List.mem_cons_self, rfl, htakes⟩
            · exact ⟨p, List.mem_cons_of_mem _ hp, htakes⟩
          · rintro ⟨p, hp, heq, htakes⟩
            rcases List.mem_cons.mp hp with rfl | hmem
            · exact Or.inl ⟨heq.symm, htakes⟩
            · exact Or.inr ⟨p, hmem, heq, htakes⟩

/-- The reports that a conversation embeds, each with its message, if it belongs to one. -/
def given (conversation : Conversation) : List (Option String × EmbeddedReport) :=
  (match conversation.verificationReports with
    | some (some reports) => reports.items.filterMap fun p => p.2.map fun report => (some p.1, report)
    | _ => []) ++
  match conversation.verificationReport with
    | some (some legacy) => [(lastAssistantId conversation, legacy)]
    | _ => []

def EmbeddedReport.HasClaims (report : EmbeddedReport) : Prop :=
  ∃ claims, report.claims = some claims ∧ claims ≠ []

/-- A report with claims stays in the conversation, or the graph holds one for its message. -/
def NothingLost (conversation : Conversation) (result : Conversation × ReportGraph) : Prop :=
  ∀ p ∈ given conversation, p.2.HasClaims →
    p ∈ given result.1 ∨ ∃ messageId, p.1 = some messageId ∧
      result.2.Holds conversation.id messageId

/-- A call fails, and the conversation keeps its reports. -/
def Fails (calls : Calls) (conversation : Conversation) (graph : ReportGraph) : Prop :=
  calls.connectFails = true ∨
    ∃ p ∈ (embedded conversation).items, Raises calls graph conversation.id p.1 p.2

/-- Nothing is lost exactly if a call fails, or every report with claims belongs to a message
that the graph has a report for, or takes one for. -/
theorem nothingLost_iff (calls : Calls) (conversation : Conversation) (graph : ReportGraph) :
    NothingLost conversation (absorbEmbeddedReports calls conversation graph) ↔
      Fails calls conversation graph ∨
      ∀ p ∈ given conversation, p.2.HasClaims → ∃ messageId, p.1 = some messageId ∧
        (graph.Holds conversation.id messageId ∨
          ∃ report, (embedded conversation).get? messageId = some report ∧
            Takes calls messageId report) := by
  rw [absorbEmbeddedReports]
  by_cases hkeys : conversation.verificationReports = none ∧ conversation.verificationReport = none
  · rw [if_pos hkeys]
    have hgiven : given conversation = [] := by rw [given, hkeys.1, hkeys.2]; rfl
    refine ⟨fun _ => Or.inr ?_, fun _ p hp => ?_⟩
    · rw [hgiven]
      exact nofun
    · rw [hgiven] at hp
      cases hp
  · rw [if_neg hkeys]
    by_cases hconnect : calls.connectFails = true
    · rw [if_pos hconnect]
      exact ⟨fun _ => Or.inl (Or.inl hconnect), fun _ p hp _ => Or.inl hp⟩
    · rw [if_neg hconnect]
      have hspec := storeReports_spec calls conversation.id (embedded conversation).items
        (embedded conversation).nodup graph
      rcases hresult : storeReports calls conversation.id (embedded conversation).items graph with
        ⟨ids, graph'⟩
      rw [hresult] at hspec
      rcases hspec with ⟨hraises, hnone⟩ | ⟨hquiet, hsome, hholds⟩
      · cases hnone
        exact ⟨fun _ => Or.inl (Or.inr hraises), fun _ p hp _ => Or.inl hp⟩
      · obtain ⟨ids, rfl⟩ := Option.ne_none_iff_exists'.mp hsome
        have hnot : ¬ Fails calls conversation graph := by
          rintro (h | ⟨p, hp, h⟩)
          · exact hconnect h
          · exact hquiet p hp h
        have hheld : ∀ messageId, graph'.Holds conversation.id messageId ↔
            graph.Holds conversation.id messageId ∨
              ∃ report, (embedded conversation).get? messageId = some report ∧
                Takes calls messageId report := by
          intro messageId
          rw [hholds]
          refine or_congr_right ⟨?_, ?_⟩
          · rintro ⟨⟨m, report⟩, hp, rfl, htakes⟩
            exact ⟨report, (Dict.mem_items_iff _ m report).mp hp, htakes⟩
          · rintro ⟨report, hget, htakes⟩
            exact ⟨(messageId, report), (Dict.mem_items_iff _ _ _).mpr hget, rfl, htakes⟩
        rw [or_iff_right hnot]
        refine forall₂_congr fun p _ => imp_congr_right fun _ => ?_
        rw [or_iff_right (show p ∉ given _ from List.not_mem_nil)]
        exact exists_congr fun messageId => and_congr_right fun _ => hheld messageId

/-- The report of a conversation that is forgotten when it is saved is in neither place. -/
theorem forgotten_report_lost :
    let calls : Calls :=
      { connectFails := false, forgottenAtGet := fun _ => true, getFails := fun _ => false,
        forgottenAtSave := fun _ => true, save := fun _ => .done }
    let report : EmbeddedReport :=
      { claims := some [some { claim := some "a", status := some "verified" }], skipped := false }
    let conversation : Conversation :=
      { id := "c1", messages := [], verificationReport := none
        verificationReports := some (some (Dict.empty.set "m1" (some report))) }
    ¬ NothingLost conversation (absorbEmbeddedReports calls conversation Dict.empty) := by
  intro calls report conversation h
  rcases h (some "m1", report) (by decide) ⟨_, rfl, by decide⟩ with hmem | ⟨m, hm, hholds⟩
  · exact absurd hmem (by decide)
  · cases hm
    exact absurd hholds (by decide)

end Cerid.Verification
