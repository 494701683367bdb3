import PegMachine.Analysis.Labels
import PegMachine.Analysis.MemoPolicy
import PegMachine.Analysis.Proxy
import PegMachine.Session

/-!
# Transforming passes

A checked grammar is made ready for code: proxy rules are taken out, elements of sequences are
named, and it is decided which rules are memoized.
-/

namespace PegMachine

namespace Session

/-! ## Proxy rules -/

/-- Let the references to a proxy go straight to the rule it stands for. -/
def redirectReferences (s : Session) (source target : String) : Session :=
  let ids := s.grammar.references source
  let s := { s with grammar := s.grammar.redirect source target }
  ids.foldl
    (fun s id =>
      s.info ("Reference to Proxy Rule \"" ++ source ++ "\" replaced with rule \"" ++ target
        ++ "\" in rule \"" ++ s.ownerName id ++ "\".") (s.grammar.node id).location) s

/-- Move the label of a proxy to the rule it stands for, unless that one has a label. -/
def moveLabel (s : Session) (source target : String) (index : Nat) (label : String) : Session :=
  match s.grammar.labelRoot index label with
  | none => s
  | some grammar =>
    { s with grammar }.info
      ("Rule \"" ++ target ++ "\" is updated with the label from the proxy rule \"" ++ source
        ++ "\".") ((grammar.rules[index]?).bind (·.location))

/-- Reduce a rule if it is a proxy; the result tells whether the rule can go. -/
def reduceProxy (s : Session) (index : Nat) : Bool × Session :=
  match s.grammar.proxy? index, s.grammar.rules[index]? with
  | some proxy, some r =>
    match s.grammar.ruleIndex? proxy.target with
    | none => (false, s)
    | some target =>
      let s := s.info ("Rule \"" ++ r.name ++ "\" is a proxy rule. (It will be reduced.)")
        r.location
      let s := s.redirectReferences r.name proxy.target
      let s := match proxy.label with
        | some label => s.moveLabel r.name proxy.target target label
        | none => s
      (!(s.facts.rules[index]?).any (·.starter.isStarter), s)
  | _, _ => (false, s)

/-- Reduce all proxies; the result lists the rules that can go. -/
def reduceProxies (s : Session) : List Nat × Session :=
  (List.range s.grammar.rules.length).foldl
    (fun (doomed, s) index =>
      let (goes, s) := s.reduceProxy index
      (if goes then doomed ++ [index] else doomed, s)) ([], s)

/-- Take out the proxies that no parse starts from. -/
def elideProxies (s : Session) : Session :=
  let (doomed, s) := s.reduceProxies
  if doomed.isEmpty then s.relink
  else (s.logs .debug s!"eliding {doomed.length} proxy rule(s)").removeRules doomed

/-! ## Names and memoization -/

/-- Name the elements of all sequences. -/
def nameElements (s : Session) : Session := { s with facts := s.facts.nameElements s.grammar }

/-- What is said when annotations decide otherwise than the options. -/
def overrideMessage (word : String) : String :=
  "The cache/nocache annotations in the grammar override the parser cache/memoize option to be "
    ++ "MEMOIZE=" ++ word ++ "."

/-- Decide which rules are memoized: a rule by its own annotation, else by the forced option, else
by the annotation for the grammar, else by the option. -/
def decideMemoization (s : Session) : Session :=
  let policy := MemoPolicy.ofGrammar s.grammar
  let s := policy.conflicts.foldl (fun s (message, location) => s.warning message location) s
  let usual := if s.options.forceCache then true else policy.default.getD s.options.cache
  let rules := s.facts.rules.mapIdx fun i r =>
    match policy.rules[i]? with
    | some decision => { r with memoize := decision.getD usual }
    | none => r
  let on := rules.any (·.memoize)
  let s := if on && !s.options.cache then s.info (overrideMessage "ON") none
    else if !on && s.options.cache then s.info (overrideMessage "OFF") none
    else s
  let s := { s with facts := { s.facts with rules, memoize := on } }
  let count := (rules.filter (·.memoize)).size
  s.logs .debug ("memoization " ++ (if on then "on" else "off")
    ++ s!" ({count} of {rules.size} rules)")

end Session

namespace Pass

/-- Take out the proxies that no parse starts from. -/
def proxyRules : Pass := ofFunction "proxy_rules" Session.elideProxies

/-- Name the elements of all sequences. -/
def autoLabel : Pass := ofFunction "auto_label" Session.nameElements

/-- Decide which rules are memoized. -/
def memoization : Pass := ofFunction "memoization" Session.decideMemoization

end Pass

end PegMachine
