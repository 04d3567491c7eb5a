import Reckon.Calculator

/-!
# Sessions

A session is a calculator in use: requests come one after the other, the options may change in
between, and the last value that was computed can be shown again under the options of the moment.
A request that fails changes nothing.
-/

namespace Reckon

inductive Request where
  /-- Change options from here on. -/
  | configure (c : Changes)
  | evaluate (text : String)
  /-- Show the last value again. -/
  | recall
  /-- Evaluate and show, without keeping the value. -/
  | solve (text : String)
  /-- Compare with a calculator that has the given options. -/
  | compare (c : Changes)
  | options
deriving DecidableEq, Repr

inductive Answer where
  | options (o : Options)
  | result (r : Result)
  | view (v : View)
  | equal (b : Bool)
  | fault (e : Fault)
  /-- There is no value to show. -/
  | nothing
deriving DecidableEq, Repr

structure Session where
  calculator : Calculator := {}
  last : Option Result := none
deriving DecidableEq, Repr

namespace Session

/-- Answers one request. -/
def step (s : Session) : Request → Session × Answer
  | .configure c =>
    match s.calculator.configure c with
    | .ok k => ({ s with calculator := k }, .options k.options)
    | .error e => (s, .fault e)
  | .evaluate text =>
    match s.calculator.evaluate text with
    | .ok r => ({ s with last := some r }, .result r)
    | .error e => (s, .fault e)
  | .recall => (s, (s.last.map fun r => Answer.view (s.calculator.view r)).getD .nothing)
  | .solve text =>
    match s.calculator.solve text with
    | .ok v => (s, .view v)
    | .error e => (s, .fault e)
  | .compare c =>
    match Calculator.ofChanges c with
    | .ok k => (s, .equal (k == s.calculator))
    | .error e => (s, .fault e)
  | .options => (s, .options s.calculator.options)

/-- Answers requests in turn. -/
def answers (s : Session) : List Request → List Answer
  | [] => []
  | r :: rs =>
    let (s, a) := s.step r
    a :: answers s rs

end Session

end Reckon
