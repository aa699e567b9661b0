import Descent.Grammar.Description
import Descent.Session.Basic

/-!
Commands of a session. Of a command's names the first one is the register that it sets; a command
whose answer is an error leaves that register as it was.
-/

namespace Descent

inductive CursorCommand
  | start (c text : String)
  | advance (c d : String)
  | forward (c d : String) (n : Nat)
  | next (c d : String)
  | current (c : String)
  | get (c : String)
  | source (c : String)
  | location (c : String)
  | describe (c : String)
  | compare (c d : String)
  | span (c d : String)
  | compareSpans (a b c d : String)

open Session in
def CursorCommand.run : CursorCommand → Action Reply
  | start c text => setCursor c (.start text.toList)
  | advance c d => do
    match (← cursor d).advance with
    | .ok moved => setCursor c moved
    | .error e => return .atEnd e
  | forward c d n => do
    match (← cursor d).forward n with
    | .ok moved => setCursor c moved
    | .error e => return .atEnd e
  | next c d => do
    match (← cursor d).next? with
    | some (x, moved) =>
      let _ ← setCursor c moved
      return .next x moved
    | none => return .nothing
  | current c => do
    match (← cursor c).current with
    | .ok x => return .char x
    | .error e => return .atEnd e
  | get c => return .cursor (← cursor c)
  | source c => return .text (.ofList (← cursor c).source)
  | location c => return .location (← cursor c).location
  | describe c => return .cursorText (← cursor c)
  | compare c d => do
    let c ← cursor c
    let d ← cursor d
    return .agreement (c.sameAs d) (c.hashKey == d.hashKey)
  | span c d => return .span (.between (← cursor c) (← cursor d))
  | compareSpans a b c d => do
    let s := Span.between (← cursor a) (← cursor b)
    let t := Span.between (← cursor c) (← cursor d)
    return .flag (s == t)

inductive FailureCommand
  | fail (f c message : String)
  | withExpectation (f g label : String)
  | expecting (f g : String) (labels : List String)
  | relocate (f g c : String)
  | describe (f : String)
  | report (f : String)

open Session in
def FailureCommand.run : FailureCommand → Action Reply
  | fail f c message => do setFailure f (.plain (← cursor c) (.custom message))
  | withExpectation f g label => do setFailure f ((← failure g).withExpectation label)
  | expecting f g labels => do setFailure f ((← failure g).expecting (.ofList labels))
  | relocate f g c => do setFailure f ((← failure g).relocate (← cursor c))
  | describe f => return .text (← failure f).shown
  | report f => return .mismatch (← failure f).report

inductive OutcomeCommand
  | succeed (o c : String) (v : Value)
  | fail (o c message : String)
  /-- A failure whose message shows a text as it is and quoted. -/
  | failFound (o c text : String)
  | ofFailure (o f : String)
  | failureOf (f o : String)
  | ifSuccess (o p : String) (node : Node)
  | ifFailure (o p : String) (node : Node)
  | map (o p : String) (m : Mapping)
  | describe (o : String)
  | cursorOf (c o : String)

/-- What a message says of a text that was found. -/
def foundMessage (text : String) : String :=
  "found " ++ enquote text ++ " (" ++ Text.quoted text ++ ")"

open Session in
def OutcomeCommand.run : OutcomeCommand → Action Reply
  | succeed o c v => do setOutcome o (.success v (← cursor c))
  | fail o c message => do setOutcome o (.failure (.plain (← cursor c) (.custom message)))
  | failFound o c text => do
    setOutcome o (.failure (.plain (← cursor c) (.custom (foundMessage text))))
  | ofFailure o f => do setOutcome o (.failure (← failure f))
  | failureOf f o => do
    match ← outcome o with
    | .success _ _ => return .nothing
    | .failure found => setFailure f found
  | ifSuccess o p node => do
    let found ← outcome p
    withParser node fun t => do
      match found with
      | .success _ r => settleOutcome o (← Session.parseFrom t r)
      | .failure f => setOutcome o (.failure f)
  | ifFailure o p node => do
    let found ← outcome p
    withParser node fun t => do
      match found with
      | .success v r => setOutcome o (.success v r)
      | .failure f => settleOutcome o (← Session.parseFrom t f.failedAt)
  | map o p m => do setOutcome o ((← outcome p).map (m.run fun _ => .unit))
  | describe o => return .outcomeText (← outcome o)
  | cursorOf c o => do setCursor c (← outcome o).cursor

inductive RuleCommand
  | declare (r : String)
  | define (r : String) (node : Node)
  | recursive (r : String) (node : Node) (weak : Option String)
  | clone (r s : String)
  | drop (r : String)
  | isDefined (r : String)
  | identity (r : String)
  | compare (r s : String)
  | reference

open Session in
def RuleCommand.run : RuleCommand → Action Reply
  | declare r => return .rule (← withRegistry (Registry.declare r))
  | define r node => do
    let h ← handle r
    match ← withRegistry (Registry.define h node) with
    | .ok () => return .defined
    | .error d => return .halted (.defect d)
  | recursive r node weak => return .rule (← withRegistry (Registry.recursive r node weak))
  | clone r s => do
    let h ← handle s
    withRegistry (Registry.clone r h)
    return .nothing
  | drop r => do
    withRegistry (Registry.drop r)
    return .nothing
  | isDefined r => do
    let h ← handle r
    return .flag ((← get).registry.store.isDefined h.rule)
  | identity r => return .ruleText (← handle r).rule
  | compare r s => do
    let h ← handle r
    let k ← handle s
    return .ordering (Ord.compare h.rule.number k.rule.number)
  | reference => return .rule (← withRegistry Registry.freshReference)

inductive ParserCommand
  | build (p : String) (node : Node)
  | parseAt (o p c : String)
  | outcome (p text : String)
  | result (p text : String)
  /-- The diagnostic form of a result. -/
  | describe (p text : String)
  /-- What a leaf expects. -/
  | expectation (node : Node)

namespace Session

/-- The result of a named parser on a text. -/
def resultOf (p text : String) : Action (Except ParseError Value) := do
  let t ← parser p
  return Outcome.result (← Session.parseFrom t (.start text.toList))

end Session

open Session in
def ParserCommand.run : ParserCommand → Action Reply
  | build p node => do
    withRegistry (Registry.parser p node)
    return .nothing
  | parseAt o p c => do
    let t ← parser p
    let c ← cursor c
    settleOutcome o (← Session.parseFrom t c)
  | outcome p text => do
    let t ← parser p
    match ← Session.parseFrom t (.start text.toList) with
    | .ok o => return .outcome o
    | .error h => return .halted h
  | result p text => return .result (← resultOf p text)
  | describe p text => do
    match ← resultOf p text with
    | .ok v => return .text v.shown
    | .error e => return .text e.shown
  | expectation node => return .text (node.description?.getD "")

inductive Command
  | cursor (k : CursorCommand)
  | failure (k : FailureCommand)
  | outcome (k : OutcomeCommand)
  | rule (k : RuleCommand)
  | parser (k : ParserCommand)

def Command.run : Command → Action Reply
  | cursor k => k.run
  | failure k => k.run
  | outcome k => k.run
  | rule k => k.run
  | parser k => k.run

namespace Session

/-- The answers to commands, one after the other. -/
def replies : List Command → Action (List Reply)
  | [] => return []
  | k :: more => do
    let reply ← k.run
    return reply :: (← replies more)

/-- A session from its beginning. -/
def play (commands : List Command) : Except UnknownName (List Reply) :=
  ((replies commands).run.run .empty).1

end Session
end Descent
