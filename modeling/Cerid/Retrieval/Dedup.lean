import Cerid.Lib.Groups
import Cerid.Versions.History

/-!
# Duplicate results

The rows that the arms of a retrieval bring are gathered by artifact and index, and the most
relevant row of each stays.  The index of a row is the one that the last text to hold its passage
wrote, and a row of the memory surface or of a compiled page has index 0.

A history is the texts that were ingested under their artifacts.
-/

namespace Cerid.Retrieval.Dedup

open Versions

/-! ## The store -/

/-- A text that arrives for an artifact, cut into passages. -/
structure Event where
  artifactId : String
  contentHash : String
  passages : List String
  now : Time
deriving DecidableEq, Repr

/-- The rows of an artifact, and the `chunk_index` of each. -/
structure Stored where
  doc : Document
  chunkIndex : Dict String Nat

abbrev Store := Dict String Stored

/-- The passages of a text are numbered in their order. -/
def number (passages : List String) (chunkIndex : Dict String Nat) : Dict String Nat :=
  passages.zipIdx.foldl (fun d p => d.set p.1 p.2) chunkIndex

/-- An ingest of a new artifact, or a re-ingest of one that is there.  An upsert with an id that
repeats raises, and an artifact without passages is not begun. -/
def step (kept : Nat) (s : Store) (e : Event) : Store :=
  if e.passages.Nodup then
    match s.get? e.artifactId with
    | none =>
      if e.passages = [] then s
      else s.set e.artifactId
        { doc := ingest e.contentHash e.passages e.now
          chunkIndex := number e.passages .empty }
    | some d =>
      s.set e.artifactId
        { doc := reingest kept d.doc e.contentHash e.passages e.now
          chunkIndex := number e.passages d.chunkIndex }
  else s

def run (kept : Nat) (events : List Event) : Store := events.foldl (step kept) .empty

/-! ## Rows -/

/-- Where a row comes from: a stored passage, by a search or by the memory surface, a compiled
page, or an item of an external source. -/
inductive Source where
  | stored (artifactId chunkId : String)
  | memory (artifactId chunkId : String)
  | page (slug : String)
  | item (n : Nat)
deriving DecidableEq, Repr

inductive Chunk where
  | passage (artifactId chunkId : String)
  | page (slug : String)
  | item (n : Nat)
deriving DecidableEq, Repr

def Source.chunk : Source → Chunk
  | .stored artifactId chunkId | .memory artifactId chunkId => .passage artifactId chunkId
  | .page slug => .page slug
  | .item n => .item n

/-- A result and its identity as an object; where it comes from is not one of its keys. -/
structure Result (ρ : Type) where
  artifactId : Option String
  chunkIndex : Option Nat
  content : String
  relevance : ρ
  object : Nat
  source : Source

section Results

variable {ρ : Type}

/-- The rows that the arms bring from a store as of a time, whatever they read for the content. -/
inductive Drawn (s : Store) (asOf : Option Time) : Result ρ → Prop
  | stored {artifactId chunkId content relevance object d} (hd : s.get? artifactId = some d)
      (hvisible : chunkId ∈ Versions.asOf d.doc asOf) :
      Drawn s asOf ⟨some artifactId, some ((d.chunkIndex.get? chunkId).getD 0), content, relevance,
        object, .stored artifactId chunkId⟩
  | memory {artifactId chunkId content relevance object d} (hd : s.get? artifactId = some d)
      (hvisible : chunkId ∈ Versions.asOf d.doc asOf) :
      Drawn s asOf ⟨some artifactId, some 0, content, relevance, object,
        .memory artifactId chunkId⟩
  | page {slug content relevance object} (hnow : asOf = none) :
      Drawn s asOf ⟨some slug, some 0, content, relevance, object, .page slug⟩
  | item {content relevance object} :
      Drawn s asOf ⟨some "", none, content, relevance, object, .item object⟩

def Result.chunk (r : Result ρ) : Chunk := r.source.chunk

def key (result : Result ρ) : String × Nat :=
  match result.artifactId, result.chunkIndex with
  | some aid, some cidx => (aid, cidx)
  | _, _ => ("_ext", result.object)

variable [LinearOrder ρ]

/-- `deduplicate_results`. -/
def deduplicateResults (results : List (Result ρ)) : List (Result ρ) :=
  bests key Result.relevance results

/-! ## What is asked of the rows that stay -/

/-- The rows that are left of those of a chunk. -/
def left (rows : List (Result ρ)) (c : Chunk) : List (Result ρ) :=
  (deduplicateResults rows).filter fun b => rows.any fun a => a.chunk = c && key a = key b

/-- Only rows of one chunk or of one text are merged, of every chunk one row is left, which no
row of the chunk exceeds, and once is enough. -/
structure Right (rows : List (Result ρ)) : Prop where
  apart : ∀ a ∈ rows, ∀ b ∈ rows, key a = key b → a.chunk = b.chunk ∨ a.content = b.content
  kept : ∀ a ∈ rows, ∃ b, left rows a.chunk = [b] ∧
    ∀ a' ∈ rows, a'.chunk = a.chunk → a'.relevance ≤ b.relevance
  again : deduplicateResults (deduplicateResults rows) = deduplicateResults rows

end Results

/-! ## Where a passage stood -/

/-- The text is taken and has the passage. -/
def Event.holds (e : Event) (artifactId chunkId : String) : Bool :=
  e.artifactId = artifactId && e.passages.Nodup && e.passages.contains chunkId

/-- The place of a passage in the last text that has it. -/
def place (events : List Event) (artifactId chunkId : String) : Option Nat :=
  (events.reverse.find? (Event.holds · artifactId chunkId)).map (·.passages.idxOf chunkId)

/-- What takes the place of a row: a passage by its own, a memory and a page by the first. -/
def Source.seat (events : List Event) : Source → String × Nat
  | .stored artifactId chunkId => (artifactId, (place events artifactId chunkId).getD 0)
  | .memory artifactId _ => (artifactId, 0)
  | .page slug => (slug, 0)
  | .item n => ("_ext", n)

/-- The rows of one chunk have one seat, and those of one seat are of one chunk or one text. -/
def Seated {ρ : Type} (events : List Event) (rows : List (Result ρ)) : Prop :=
  ∀ a ∈ rows, ∀ b ∈ rows,
    (a.chunk = b.chunk → a.source.seat events = b.source.seat events) ∧
      (a.source.seat events = b.source.seat events → a.chunk = b.chunk ∨ a.content = b.content)

/-! ## The rows that are left -/

section Results

variable {ρ : Type} [LinearOrder ρ] {rows : List (Result ρ)}

theorem mem_left {c : Chunk} {b : Result ρ} :
    b ∈ left rows c ↔ b ∈ deduplicateResults rows ∧ ∃ a ∈ rows, a.chunk = c ∧ key a = key b := by
  simp [left]

theorem nodup_keys_left (rows : List (Result ρ)) (c : Chunk) :
    ((left rows c).map key).Nodup :=
  (nodup_keys_bests key Result.relevance rows).sublist (List.filter_sublist.map key)

/-- Where the rows of a chunk have one key, one row is left of them. -/
theorem left_eq_singleton {a b : Result ρ} (ha : a ∈ rows)
    (hone : ∀ a' ∈ rows, a'.chunk = a.chunk → key a' = key a)
    (hb : b ∈ deduplicateResults rows) (hkey : key b = key a) : left rows a.chunk = [b] := by
  have hmem : b ∈ left rows a.chunk := mem_left.mpr ⟨hb, a, ha, rfl, hkey.symm⟩
  have hall : ∀ b' ∈ left rows a.chunk, key b' = key b := by
    intro b' hb'
    obtain ⟨-, a', ha', hchunk, hkey'⟩ := mem_left.mp hb'
    rw [← hkey', hone a' ha' hchunk, hkey]
  have hnodup := nodup_keys_left rows a.chunk
  cases hleft : left rows a.chunk with
  | nil => simp [hleft] at hmem
  | cons c rest =>
    rw [hleft] at hmem hall hnodup
    cases rest with
    | nil => rw [List.mem_singleton.mp hmem]
    | cons c' rest =>
      have hc := hall c List.mem_cons_self
      have hc' := hall c' (List.mem_cons_of_mem c List.mem_cons_self)
      simp [hc, hc'] at hnodup

theorem right_iff_keys :
    Right rows ↔ ∀ a ∈ rows, ∀ b ∈ rows, (a.chunk = b.chunk → key a = key b) ∧
      (key a = key b → a.chunk = b.chunk ∨ a.content = b.content) := by
  constructor
  · intro hright a ha b hb
    refine ⟨fun hchunk => ?_, hright.apart a ha b hb⟩
    obtain ⟨c, hleft, -⟩ := hright.kept a ha
    have hof : ∀ x ∈ rows, x.chunk = a.chunk → key x = key c := by
      intro x hx hxchunk
      obtain ⟨y, hy, hkey, -⟩ := exists_best key Result.relevance hx
      have hmem : y ∈ left rows a.chunk := mem_left.mpr ⟨hy, x, hx, hxchunk, hkey.symm⟩
      rw [hleft, List.mem_singleton] at hmem
      rw [← hmem, hkey]
    rw [hof a ha rfl, hof b hb hchunk.symm]
  · intro hkeys
    refine ⟨fun a ha b hb => (hkeys a ha b hb).2, fun a ha => ?_, bests_bests key _ rows⟩
    obtain ⟨b, hb, hkey, -⟩ := exists_best key Result.relevance ha
    refine ⟨b, left_eq_singleton ha (fun a' ha' => (hkeys a' ha' a ha).1) hb hkey, ?_⟩
    intro a' ha' hchunk
    have hbest := (mem_bests key Result.relevance).mp hb
    have hgroup : a' ∈ groupOf key rows (key b) :=
      mem_groupOf.mpr ⟨ha', ((hkeys a' ha' a ha).1 hchunk).trans hkey.symm⟩
    exact List.le_of_mem_argmax hgroup hbest

end Results

/-! ## The numbers of the passages -/

theorem find?_zipIdx (passages : List String) (c : String) (k : Nat) :
    ((passages.zipIdx k).find? (fun p => p.1 = c)).map Prod.snd =
      if c ∈ passages then some (k + passages.idxOf c) else none := by
  induction passages generalizing k with
  | nil => rfl
  | cons p rest ih =>
    rw [List.zipIdx_cons]
    by_cases hp : p = c
    · simp [hp]
    · have hp' : ¬ c = p := fun e => hp e.symm
      rw [List.find?_cons_of_neg (by simpa using hp), ih, List.idxOf_cons_ne rest hp]
      simp only [List.mem_cons, hp', false_or]
      split
      · congr 1
        omega
      · rfl

theorem get?_number {passages : List String} (hnd : passages.Nodup) (d : Dict String Nat)
    (c : String) :
    (number passages d).get? c =
      if c ∈ passages then some (passages.idxOf c) else d.get? c := by
  have hkeys : (passages.zipIdx.map Prod.fst).Nodup := by rwa [List.zipIdx_map_fst]
  rw [number, Dict.get?_foldl_set passages.zipIdx hkeys, find?_zipIdx]
  split <;> simp

theorem place_snoc (events : List Event) (e : Event) (artifactId chunkId : String) :
    place (events ++ [e]) artifactId chunkId =
      if e.holds artifactId chunkId then some (e.passages.idxOf chunkId)
      else place events artifactId chunkId := by
  rw [place, List.reverse_append, List.reverse_singleton, List.singleton_append, List.find?_cons]
  cases e.holds artifactId chunkId <;> rfl

/-! ## The rows of the last text -/

theorem rows_recordDocumentVersion {kept version : Nat} {prev d : Document} {contentHash : String}
    {now : Time} {c : String} {row : Versions.Row}
    (h : (recordDocumentVersion kept prev d version contentHash now).rows.get? c = some row) :
    d.rows.get? c = some row := by
  obtain ⟨-, heq⟩ | ⟨-, oldest, rest, -, heq⟩ :=
    recordDocumentVersion_cases kept prev d version contentHash now
  · rw [heq] at h
    exact h
  · rw [heq] at h
    simp only [retireVersions, Dict.get?_filter, Option.filter_eq_some_iff] at h
    exact h.1

/-- A re-ingest leaves open what its text has. -/
theorem mem_of_open_reingest {kept : Nat} {d : Document} {contentHash : String}
    {passages : List String} {now : Time} {c : String} {row : Versions.Row}
    (h : (reingest kept d contentHash passages now).rows.get? c = some row)
    (hopen : row.validTo = none) : c ∈ passages := by
  by_contra hc
  unfold reingest at h
  by_cases hchanged : d.contentHash ≠ contentHash
  · simp only [hchanged, ne_eq, not_false_eq_true, if_true] at h
    have hrow := rows_recordDocumentVersion h
    rw [get?_closeRows_upsert, if_neg hc, Option.map_eq_some_iff] at hrow
    obtain ⟨old, -, rfl⟩ := hrow
    cases hclosed : old.closed with
    | false => simp [hclosed, Versions.Row.close] at hopen
    | true =>
      obtain ⟨y, hy⟩ := Versions.Row.closed_eq_true_iff.mp hclosed
      simp [hclosed, hy] at hopen
  · simp only [hchanged, if_false] at h
    rw [Dict.get?_filter, Option.filter_eq_some_iff, Dict.get?_foldl_set_keys, if_neg hc] at h
    obtain ⟨hrow, hclosing⟩ := h
    have hcurrent : c ∈ (currentVersionRows d).keys :=
      (Dict.mem_keys_iff _ c).mpr ⟨row, get?_currentVersionRows.mpr ⟨hrow, hopen⟩⟩
    simp [hcurrent, hc] at hclosing

theorem mem_of_ingest {contentHash : String} {passages : List String} {now : Time} {c : String}
    {row : Versions.Row} (h : (ingest contentHash passages now).rows.get? c = some row) : c ∈ passages := by
  by_contra hc
  simp [ingest, Dict.get?_foldl_set_keys, hc] at h

/-! ## Runs -/

/-- The index of every row is the place of its passage, and the open rows of an artifact are
passages of one text. -/
structure Placed (events : List Event) (s : Store) : Prop where
  index : ∀ aid d, s.get? aid = some d → ∀ c, d.chunkIndex.get? c = place events aid c
  absent : ∀ aid, s.get? aid = none → ∀ c, place events aid c = none
  current : ∀ aid d, s.get? aid = some d → ∃ passages : List String, ∀ c row,
    d.doc.rows.get? c = some row → row.validTo = none →
      c ∈ passages ∧ place events aid c = some (passages.idxOf c)

/-- An event that takes nothing in, or one that numbers its passages over what was there. -/
theorem step_cases (kept : Nat) (s : Store) (e : Event) :
    (step kept s e = s ∧ ∀ aid c, e.holds aid c = false) ∨
      e.passages.Nodup ∧ ∃ doc old, step kept s e =
          s.set e.artifactId { doc, chunkIndex := number e.passages old } ∧
        (∀ c row, doc.rows.get? c = some row → row.validTo = none → c ∈ e.passages) ∧
        (s.get? e.artifactId = none ∧ old = .empty ∨
          ∃ d, s.get? e.artifactId = some d ∧ old = d.chunkIndex) := by
  unfold step
  by_cases hnd : e.passages.Nodup
  · rw [if_pos hnd]
    cases hget : s.get? e.artifactId with
    | none =>
      by_cases hnil : e.passages = []
      · exact .inl ⟨by simp [hnil], fun aid c => by simp [Event.holds, hnil]⟩
      · refine .inr ⟨hnd, _, .empty, if_neg hnil, fun c row h _ => mem_of_ingest h, ?_⟩
        exact .inl ⟨rfl, rfl⟩
    | some d =>
      refine .inr ⟨hnd, _, d.chunkIndex, rfl, fun c row h hopen => ?_, .inr ⟨d, rfl, rfl⟩⟩
      exact mem_of_open_reingest h hopen
  · exact .inl ⟨if_neg hnd, fun aid c => by simp [Event.holds, hnd]⟩

theorem Placed.step {kept : Nat} {events : List Event} {s : Store} (hs : Placed events s)
    (e : Event) : Placed (events ++ [e]) (step kept s e) := by
  obtain ⟨hstep, hnone⟩ | ⟨hnd, doc, old, hstep, hopen, hold⟩ := step_cases kept s e
  · have hplace : ∀ aid c, place (events ++ [e]) aid c = place events aid c := by
      intro aid c
      rw [place_snoc, hnone]
      rfl
    rw [hstep]
    exact ⟨fun aid d h c => (hs.index aid d h c).trans (hplace aid c).symm,
      fun aid h c => (hplace aid c).trans (hs.absent aid h c),
      fun aid d h => by simpa only [hplace] using hs.current aid d h⟩
  · have hother : ∀ aid c, aid ≠ e.artifactId →
        place (events ++ [e]) aid c = place events aid c := by
      intro aid c hne
      have hne' : ¬ e.artifactId = aid := fun h => hne h.symm
      simp [place_snoc, Event.holds, hne']
    have hown : ∀ c, place (events ++ [e]) e.artifactId c =
        if c ∈ e.passages then some (e.passages.idxOf c) else place events e.artifactId c := by
      intro c
      simp [place_snoc, Event.holds, hnd]
    have hget : ∀ aid, (Dedup.step kept s e).get? aid =
        if aid = e.artifactId then some { doc, chunkIndex := number e.passages old }
        else s.get? aid := by
      intro aid
      rw [hstep, Dict.get?_set]
    have holdPlace : ∀ c, old.get? c = place events e.artifactId c := by
      intro c
      obtain ⟨habsent, rfl⟩ | ⟨d, hd, rfl⟩ := hold
      · exact (hs.absent _ habsent c).symm
      · exact hs.index _ d hd c
    refine ⟨fun aid d hd c => ?_, fun aid hnone c => ?_, fun aid d hd => ?_⟩
    · rw [hget] at hd
      by_cases haid : aid = e.artifactId
      · subst haid
        rw [if_pos rfl] at hd
        obtain rfl := Option.some.inj hd
        rw [get?_number hnd, hown, holdPlace]
      · rw [if_neg haid] at hd
        rw [hother aid c haid, hs.index aid d hd]
    · rw [hget] at hnone
      by_cases haid : aid = e.artifactId
      · simp [haid] at hnone
      · rw [if_neg haid] at hnone
        rw [hother aid c haid, hs.absent aid hnone]
    · rw [hget] at hd
      by_cases haid : aid = e.artifactId
      · subst haid
        rw [if_pos rfl] at hd
        obtain rfl := Option.some.inj hd
        refine ⟨e.passages, fun c row hrow hto => ⟨hopen c row hrow hto, ?_⟩⟩
        rw [hown, if_pos (hopen c row hrow hto)]
      · rw [if_neg haid] at hd
        simpa only [hother aid _ haid] using hs.current aid d hd

theorem placed_run (kept : Nat) (events : List Event) : Placed events (run kept events) := by
  induction events using List.reverseRecOn with
  | nil => exact ⟨by simp [run], by simp [place], by simp [run]⟩
  | append_singleton events e ih =>
    rw [run, List.foldl_append]
    exact ih.step e

section Results

variable {ρ : Type}

theorem key_eq_seat {kept : Nat} {events : List Event} {asOf : Option Time} {r : Result ρ}
    (h : Drawn (run kept events) asOf r) : key r = r.source.seat events := by
  cases h with
  | stored hd hvisible =>
    simp only [key, Source.seat, (placed_run kept events).index _ _ hd]
  | memory hd hvisible => rfl
  | page hnow => rfl
  | item => rfl

theorem mem_asOf_none {d : Document} {c : String} (h : c ∈ Versions.asOf d none) :
    ∃ row, d.rows.get? c = some row ∧ row.validTo = none := by
  obtain ⟨row, hrow⟩ := (Dict.mem_keys_iff _ c).mp h
  rw [Dict.get?_filter, Option.filter_eq_some_iff, Bool.and_eq_true] at hrow
  exact ⟨row, hrow.1, Option.isNone_iff_eq_none.mp hrow.2.2⟩

/-- The rows that searches bring of the current texts, and those of external sources, always have
seats of their own. -/
theorem seated_current {kept : Nat} {events : List Event} {rows : List (Result ρ)}
    (h : ∀ r ∈ rows, Drawn (run kept events) none r)
    (hsearch : ∀ r ∈ rows, (∃ aid c, aid ≠ "_ext" ∧ r.source = .stored aid c) ∨
      ∃ n, r.source = .item n) : Seated events rows := by
  have hplace : ∀ r ∈ rows, ∀ aid c, r.source = .stored aid c → ∃ d,
      (run kept events).get? aid = some d ∧
        ∃ row, d.doc.rows.get? c = some row ∧ row.validTo = none := by
    intro r hr aid c hsource
    cases h r hr with
    | stored hd hvisible =>
      obtain ⟨rfl, rfl⟩ := Source.stored.inj hsource
      exact ⟨_, hd, mem_asOf_none hvisible⟩
    | memory hd hvisible => cases hsource
    | page hnow => cases hsource
    | item => cases hsource
  intro a ha b hb
  obtain ⟨aid, c, haid, hsa⟩ | ⟨n, hsa⟩ := hsearch a ha <;>
    obtain ⟨aid', c', haid', hsb⟩ | ⟨n', hsb⟩ := hsearch b hb <;>
    simp only [Result.chunk, hsa, hsb, Source.chunk, Source.seat]
  · refine ⟨fun hchunk => ?_, fun hseat => .inl ?_⟩
    · obtain ⟨rfl, rfl⟩ := Chunk.passage.inj hchunk
      rfl
    · obtain ⟨rfl, hindex⟩ := Prod.mk.inj hseat
      obtain ⟨d, hd, row, hrow, hopen⟩ := hplace a ha aid c hsa
      obtain ⟨d', hd', row', hrow', hopen'⟩ := hplace b hb aid c' hsb
      obtain rfl := Option.some.inj (hd.symm.trans hd')
      obtain ⟨passages, hcurrent⟩ := (placed_run kept events).current aid d hd
      obtain ⟨hmem, hc⟩ := hcurrent c row hrow hopen
      obtain ⟨-, hc'⟩ := hcurrent c' row' hrow' hopen'
      rw [hc, hc'] at hindex
      rw [(List.idxOf_inj hmem).mp hindex]
  · exact ⟨fun hchunk => (by cases hchunk), fun hseat => absurd (Prod.mk.inj hseat).1 haid⟩
  · exact ⟨fun hchunk => (by cases hchunk), fun hseat => absurd (Prod.mk.inj hseat).1.symm haid'⟩
  · refine ⟨fun hchunk => ?_, fun hseat => .inl ?_⟩
    · rw [Chunk.item.inj hchunk]
    · rw [(Prod.mk.inj hseat).2]

/-- What is left is right exactly where the rows have seats of their own. -/
theorem deduplicateResults_right_iff [LinearOrder ρ] (kept : Nat) (events : List Event)
    (asOf : Option Time) (rows : List (Result ρ))
    (h : ∀ r ∈ rows, Drawn (run kept events) asOf r) : Right rows ↔ Seated events rows := by
  rw [right_iff_keys]
  refine forall₂_congr fun a ha => forall₂_congr fun b hb => ?_
  rw [key_eq_seat (h a ha), key_eq_seat (h b hb)]

end Results

/-! ## A passage that moves up -/

def movedUp : List Event :=
  [⟨"d", "h1", ["d_a", "d_b"], 0⟩, ⟨"d", "h2", ["d_b", "d_c"], 10⟩]

theorem drawn_movedUp {t : Option Time} {c content : String} {relevance : ℕ} {object n : ℕ}
    (hplace : place movedUp "d" c = some n)
    (hvisible : ((run 5 movedUp).get? "d").any (fun d => c ∈ Versions.asOf d.doc t) = true) :
    Drawn (run 5 movedUp) t ⟨some "d", some n, content, relevance, object, .stored "d" c⟩ := by
  obtain ⟨d, hd, hmem⟩ := (Option.any_eq_true _ _).mp hvisible
  have hdrawn : Drawn (run 5 movedUp) t (⟨some "d", some ((d.chunkIndex.get? c).getD 0), content,
      relevance, object, .stored "d" c⟩ : Result ℕ) := .stored hd (of_decide_eq_true hmem)
  rwa [(placed_run 5 movedUp).index "d" d hd c, hplace] at hdrawn

/-- The two passages of the second text. -/
def laterRows : List (Result ℕ) :=
  [⟨some "d", some 0, "B", 9, 0, .stored "d" "d_b"⟩,
    ⟨some "d", some 1, "C", 8, 1, .stored "d" "d_c"⟩]

/-- The two passages of the first text, after the second moved up. -/
def earlierRows : List (Result ℕ) :=
  [⟨some "d", some 0, "A", 9, 0, .stored "d" "d_a"⟩,
    ⟨some "d", some 0, "B", 8, 1, .stored "d" "d_b"⟩]

theorem later_drawn : ∀ r ∈ laterRows, Drawn (run 5 movedUp) none r := by
  intro r hr
  simp only [laterRows, List.mem_cons, List.not_mem_nil, or_false] at hr
  obtain rfl | rfl := hr
  · exact drawn_movedUp (by decide) (by decide)
  · exact drawn_movedUp (by decide) (by decide)

theorem later_right : Right laterRows :=
  (deduplicateResults_right_iff 5 movedUp none laterRows later_drawn).mpr
    (seated_current later_drawn (by
      intro r hr
      simp only [laterRows, List.mem_cons, List.not_mem_nil, or_false] at hr
      obtain rfl | rfl := hr
      · exact .inl ⟨"d", "d_b", by decide, rfl⟩
      · exact .inl ⟨"d", "d_c", by decide, rfl⟩))

theorem earlier_merged :
    (∀ r ∈ earlierRows, Drawn (run 5 movedUp) (some 5) r) ∧ ¬ Right earlierRows := by
  constructor
  · intro r hr
    simp only [earlierRows, List.mem_cons, List.not_mem_nil, or_false] at hr
    obtain rfl | rfl := hr
    · exact drawn_movedUp (by decide) (by decide)
    · exact drawn_movedUp (by decide) (by decide)
  · intro hright
    have hmerged := hright.apart _ List.mem_cons_self _
      (List.mem_cons_of_mem _ List.mem_cons_self) rfl
    revert hmerged
    decide

end Cerid.Retrieval.Dedup
