import Cerid.Lib.Text

/-!
# Keys of cached verdicts

The key of a verdict is made from the claim, normalised, and from the model, the method, the
context and the partition of its verification, joined with a separator and hashed.
-/

namespace Cerid.Verification

open Text

/-- `\w`, of which nothing is assumed past ASCII. -/
structure WordClass where
  isWord : Char → Bool
  ascii : ∀ c : Char, c.toNat < 128 → isWord c = (c.isAlphanum || c = '_')

def WordClass.english : WordClass where
  isWord := fun c => c.isAlphanum || c = '_'
  ascii := fun _ _ => rfl

/-- `re.sub(r"\s+", " ", text)`; `inSpace` where the text goes on after a space. -/
def collapseFrom (inSpace : Bool) : List Char → List Char
  | [] => []
  | c :: rest =>
    if isSpace c then
      if inSpace then collapseFrom true rest else ' ' :: collapseFrom true rest
    else c :: collapseFrom false rest

def collapse (text : List Char) : List Char := collapseFrom false text

structure ClaimRequest where
  claim : List Char
  model : List Char
  method : List Char
  responseContext : List Char
  partition : List Char
deriving DecidableEq

section Key

variable (F : CaseFold) (W : WordClass) (digest : List Char → List Char)

/-- `str.lower`, one character at a time. -/
def lower (text : List Char) : List Char := text.flatMap F.char

def normalizeClaim (claim : List Char) : List Char :=
  let text := strip (lower F claim)
  let text := text.filter fun c => W.isWord c || isSpace c || c = '\''
  strip (collapse text)

def cacheSchema : List Char := "v3".toList

def separator : Char := '\x1f'

def keyMaterial (q : ClaimRequest) : List Char :=
  [separator].intercalate
    [cacheSchema, q.model, q.method, normalizeClaim F W q.claim, q.responseContext, q.partition]

/-- `digest` is the first twenty digits of the SHA-256 of a text. -/
def claimCacheKey (q : ClaimRequest) : List Char :=
  cacheSchema ++ ':' :: digest (keyMaterial F W q)

def redisKey (q : ClaimRequest) : List Char :=
  "verf:claim:".toList ++ claimCacheKey F W digest q

/-! ## What a claim states -/

/-- A comparison sign, the sign of a number or the point in one. -/
def isMark (before : Option Char) (c : Char) (after : Option Char) : Bool :=
  decide (c ∈ ['<', '>', '=', '≤', '≥', '≠']) ||
    (decide (c ∈ ['-', '+', '−']) && after.any Char.isDigit && !before.any W.isWord) ||
    (decide (c = '.') && after.any Char.isDigit)

/-- A text without what is neither a word, a space, an apostrophe nor a mark. -/
def significant (before : Option Char) : List Char → List Char
  | [] => []
  | c :: rest =>
    if W.isWord c || isSpace c || c = '\'' || isMark W before c rest.head? then
      c :: significant (some c) rest
    else significant (some c) rest

/-- The words of a claim in their order, with its numbers and comparison signs. -/
def statement (claim : List Char) : List Char := strip (collapse (significant W none (lower F claim)))

/-- The claims state the same, and the rest of the requests is the same. -/
structure Same (q o : ClaimRequest) : Prop where
  statement : statement F W q.claim = statement F W o.claim
  model : q.model = o.model
  method : q.method = o.method
  responseContext : q.responseContext = o.responseContext
  partition : q.partition = o.partition

/-- No field has the separator in it. -/
def ClaimRequest.Plain (q : ClaimRequest) : Prop :=
  separator ∉ q.model ∧ separator ∉ q.method ∧ separator ∉ q.responseContext ∧
    separator ∉ q.partition

/-- The requests have fields that the separator tells apart and materials that the digest tells
apart, and claims that differ in no mark that the normalisation drops. -/
structure Apart (q o : ClaimRequest) : Prop where
  plain : q.Plain ∧ o.Plain
  digest : digest (keyMaterial F W q) = digest (keyMaterial F W o) →
    keyMaterial F W q = keyMaterial F W o
  marks : normalizeClaim F W q.claim = normalizeClaim F W o.claim →
    statement F W q.claim = statement F W o.claim

/-! ## Keys tell requests apart -/

theorem mem_of_mem_strip {cs : List Char} {c : Char} (h : c ∈ strip cs) : c ∈ cs :=
  (List.dropWhile_sublist _).subset ((List.rdropWhile_prefix _ _).subset h)

theorem mem_collapseFrom {b : Bool} {cs : List Char} {c : Char} (h : c ∈ collapseFrom b cs) :
    c = ' ' ∨ c ∈ cs ∧ isSpace c = false := by
  induction cs generalizing b with
  | nil => cases h
  | cons d rest ih =>
    rw [collapseFrom] at h
    by_cases hd : isSpace d = true
    · rw [if_pos hd] at h
      cases b with
      | true => exact (ih h).imp_right fun h => ⟨List.mem_cons_of_mem d h.1, h.2⟩
      | false =>
        rcases List.mem_cons.mp h with rfl | h
        · exact Or.inl rfl
        · exact (ih h).imp_right fun h => ⟨List.mem_cons_of_mem d h.1, h.2⟩
    · rw [if_neg hd] at h
      rcases List.mem_cons.mp h with rfl | h
      · exact Or.inr ⟨List.mem_cons_self, Bool.eq_false_iff.mpr hd⟩
      · exact (ih h).imp_right fun h => ⟨List.mem_cons_of_mem d h.1, h.2⟩

/-- The separator is a space, and the only spaces of a normalised claim are blanks. -/
theorem separator_not_mem_normalizeClaim (claim : List Char) :
    separator ∉ normalizeClaim F W claim := by
  intro h
  rcases mem_collapseFrom (mem_of_mem_strip h) with h | ⟨-, h⟩
  · exact absurd h (by decide)
  · exact absurd h (by decide)

theorem redisKey_injective {q o : ClaimRequest} (h : Apart F W digest q o)
    (hkey : redisKey F W digest q = redisKey F W digest o) : Same F W q o := by
  have hdigest := List.append_cancel_left (List.append_cancel_left hkey)
  have hmaterial := h.digest (List.cons.inj hdigest).2
  have hparts : ∀ r : ClaimRequest, r.Plain → ∀ part ∈
      [cacheSchema, r.model, r.method, normalizeClaim F W r.claim, r.responseContext, r.partition],
      separator ∉ part := by
    intro r hr part hpart
    simp only [List.mem_cons, List.not_mem_nil, or_false] at hpart
    rcases hpart with rfl | rfl | rfl | rfl | rfl | rfl
    · decide
    · exact hr.1
    · exact hr.2.1
    · exact separator_not_mem_normalizeClaim F W r.claim
    · exact hr.2.2.1
    · exact hr.2.2.2
  have hsplit := congrArg (List.splitOn separator) hmaterial
  rw [keyMaterial, keyMaterial, List.splitOn_intercalate separator (hparts q h.plain.1) (List.cons_ne_nil _ _),
    List.splitOn_intercalate separator (hparts o h.plain.2) (List.cons_ne_nil _ _)] at hsplit
  simp only [List.cons.injEq, true_and, and_true] at hsplit
  obtain ⟨hmodel, hmethod, hclaim, hcontext, hpartition⟩ := hsplit
  exact ⟨h.marks hclaim, hmodel, hmethod, hcontext, hpartition⟩

end Key

end Cerid.Verification
