import SqlLayout.Text.Blank
import SqlLayout.Text.Case

/-! Phrases of several words, kept in a tree that branches on the next word. A
node holds the phrase that ends there, if one does. Walking down as far as the
words allow and keeping the last phrase met gives the longest one. -/
namespace SqlLayout.Keyword

inductive Phrases where
  | node (phrase : Option String) (children : List (String × Phrases))

namespace Phrases

def empty : Phrases :=
  .node none []

def phrase : Phrases → Option String
  | .node phrase _ => phrase

def children : Phrases → List (String × Phrases)
  | .node _ children => children

def adjust (word : String) (change : Phrases → Phrases) :
    List (String × Phrases) → List (String × Phrases)
  | [] => [(word, change empty)]
  | (key, child) :: rest =>
    if key = word then (key, change child) :: rest
    else (key, child) :: adjust word change rest

def insertWords (phrase : String) : List String → Phrases → Phrases
  | [], .node _ children => .node (some phrase) children
  | word :: rest, .node own children => .node own (adjust word (insertWords phrase rest) children)

def addWords (phrases : Phrases) (words : List String) : Phrases :=
  insertWords (" ".intercalate words) words phrases

def insert (phrases : Phrases) (phrase : String) : Phrases :=
  phrases.addWords (Text.fields (Text.upper phrase))

def ofList (phrases : List String) : Phrases :=
  phrases.foldl insert empty

def step (phrases : Phrases) (word : String) : Option Phrases :=
  phrases.children.lookup (Text.upper word)

def path : Phrases → List String → Option Phrases
  | phrases, [] => some phrases
  | phrases, word :: rest =>
    match phrases.step word with
    | some child => child.path rest
    | none => none

/-- The longest phrase, of one word at least, that begins the list of words. -/
def longestMatch : Phrases → List String → Option String
  | _, [] => none
  | phrases, word :: rest =>
    match phrases.step word with
    | some child => (child.longestMatch rest).or child.phrase
    | none => none

def nextWords (phrases : Phrases) : List String :=
  (phrases.children.map Prod.fst).mergeSort fun first second => decide (first ≤ second)

@[simp] theorem longestMatch_nil (phrases : Phrases) : phrases.longestMatch [] = none := by
  simp [longestMatch]

theorem longestMatch_cons (phrases : Phrases) (word : String) (rest : List String) :
    phrases.longestMatch (word :: rest) =
      (phrases.step word).bind fun child => (child.longestMatch rest).or child.phrase := by
  rw [longestMatch]
  cases phrases.step word <;> rfl

@[simp] theorem path_nil (phrases : Phrases) : phrases.path [] = some phrases := by
  simp [path]

end Phrases

end SqlLayout.Keyword
