import Arbor.Fault

namespace Arbor

/-- A production; `none` stands for one that was left open. -/
abbrev Production := Option Text

structure Grammar where
  rules : Table CodePoint Production
  deriving DecidableEq, Repr

namespace Grammar

variable {α : Type}

def empty : Grammar := ⟨[]⟩

def size (g : Grammar) : Nat := g.rules.length

def insert (g : Grammar) (symbol : CodePoint) (production : Production) : Grammar :=
  ⟨Table.put symbol production g.rules⟩

def symbol? : Value α → Except (Fault α) CodePoint
  | .text [p] => .ok p
  | v => .error (.ruleSymbol v)

def add (g : Grammar) (symbol : Value α) (production : Production) : Except (Fault α) Grammar := do
  return g.insert (← symbol? symbol) production

def ofRules (rules : List (Value α × Production)) : Except (Fault α) Grammar :=
  rules.foldlM (fun g rule => g.add rule.1 rule.2) empty

def replacement (g : Grammar) (symbol : CodePoint) : Text :=
  match Table.get? symbol g.rules with
  | some (some (p :: ps)) => p :: ps
  | _ => [symbol]

def rewrite (g : Grammar) (word : Text) : Text := word.flatMap g.replacement

def expand (g : Grammar) (initiator : Text) : Nat → Text
  | 0 => initiator
  | n + 1 => expand g (g.rewrite initiator) n

def history (g : Grammar) (initiator : Text) : Nat → List Text
  | 0 => [initiator]
  | n + 1 => initiator :: history g (g.rewrite initiator) n

def generations (n : Int) : Except (Fault α) Nat :=
  if n < 0 then .error (.negativeIterations n) else .ok n.toNat

def generate (g : Grammar) (initiator : Text) (n : Int) : Except (Fault α) Text := do
  return g.expand initiator (← generations n)

def iterate (g : Grammar) (initiator : Text) (n : Int) : Except (Fault α) (List Text) := do
  return g.history initiator (← generations n)

/-- The words on the way, all of them or the first few. When none is drawn, nothing is looked at. -/
def draw (g : Grammar) (initiator : Text) (n : Int) :
    Option Nat → Except (Fault α) (List Text)
  | some 0 => .ok []
  | some (k + 1) => do return g.history initiator (min k (← generations n))
  | none => g.iterate initiator n

@[simp] theorem rewrite_append (g : Grammar) (a b : Text) :
    g.rewrite (a ++ b) = g.rewrite a ++ g.rewrite b := by
  simp [rewrite]

@[simp] theorem rewrite_nil (g : Grammar) : g.rewrite [] = [] := rfl

theorem expand_append (g : Grammar) (a b : Text) (n : Nat) :
    g.expand (a ++ b) n = g.expand a n ++ g.expand b n := by
  induction n generalizing a b with
  | zero => rfl
  | succ n ih => simp [expand, ih]

theorem length_history (g : Grammar) (initiator : Text) (n : Nat) :
    (g.history initiator n).length = n + 1 := by
  induction n generalizing initiator with
  | zero => rfl
  | succ n ih => simp [history, ih]

theorem take_history (g : Grammar) (initiator : Text) (k n : Nat) :
    (g.history initiator n).take (k + 1) = g.history initiator (min k n) := by
  induction n generalizing initiator k with
  | zero => simp [history]
  | succ n ih =>
      cases k with
      | zero => simp [history]
      | succ k => simp [history, ih, Nat.succ_min_succ]

end Grammar

end Arbor
