/-!
Search for a route step by step. A route path is a list of steps: characters, parameters written
after colons, and rests written as stars. At every step a character is tried first, then a parameter
and then a rest.
-/

namespace ScriptWeave

inductive RouteStep where
  | char (c : Char)
  | parameter
  | rest
deriving DecidableEq, Repr

/-- The steps to a handler, and the names of the parameters and rests among them. -/
structure Way (α : Type) where
  method : String
  steps : List RouteStep
  names : List String
  handler : α

namespace Way

variable {α : Type}

/-- Ways from a point on: one to each star and one to the end. A colon after a backslash is a
character. -/
def extend (method : String) (handler : α) :
    Nat → List RouteStep → List String → List Char → List (Way α)
  | 0, _, _, _ => []
  | _ + 1, steps, names, [] => [⟨method, steps, names, handler⟩]
  | fuel + 1, steps, names, '\\' :: ':' :: cs =>
      extend method handler fuel (steps ++ [.char ':']) names cs
  | fuel + 1, steps, names, ':' :: cs =>
      let name := cs.takeWhile (· ≠ '/')
      extend method handler fuel (steps ++ [.parameter]) (names ++ [String.ofList name])
        (cs.drop name.length)
  | fuel + 1, steps, names, '*' :: cs =>
      let steps := steps ++ [.rest]
      let names := names ++ ["*"]
      ⟨method, steps, names, handler⟩ :: extend method handler fuel steps names cs
  | fuel + 1, steps, names, c :: cs => extend method handler fuel (steps ++ [.char c]) names cs

/-- The ways that a route path opens. A path always starts with a slash. -/
def ofPath (method path : String) (handler : α) : List (Way α) :=
  let cs := if path.toList.head? = some '/' then path.toList else '/' :: path.toList
  extend method handler (cs.length + 1) [] [] cs

/-- What is left of the ways that start with a step. -/
def after (step : RouteStep) (ways : List (Way α)) : List (Way α) :=
  ways.filterMap fun w =>
    match w.steps with
    | first :: steps => if first = step then some { w with steps } else none
    | [] => none

/-- The ways that end here. -/
def arrived (ways : List (Way α)) : List (Way α) := ways.filter (·.steps.isEmpty)

/-- How a search ends. -/
inductive Outcome (α : Type) where
  | found (way : Way α) (values : List String)
  /-- A rest was reached, but not for the method; nothing else is tried. -/
  | blocked
  | missed

/-- The way of a method that was added last. -/
def forMethod? (method : String) (ways : List (Way α)) : Option (Way α) :=
  ways.reverse.find? (·.method = method)

/-- The search from a point on, with the values met before; also tells whether a way of any method
led to the end. A parameter ends at a slash, unless no way goes on after it. -/
def search (method : String) : Nat → List (Way α) → List Char → List String → Outcome α × Bool
  | 0, _, _, _ => (.missed, false)
  | fuel + 1, ways, cs, values =>
      let here := if cs.isEmpty then arrived ways else []
      match forMethod? method here with
      | some way => (.found way values, true)
      | none =>
          let byChar : Outcome α × Bool := match cs with
            | [] => (.missed, false)
            | c :: rest =>
                let next := after (.char c) ways
                if next.isEmpty then (.missed, false) else search method fuel next rest values
          match byChar with
          | (.missed, metByChar) =>
              let next := after .parameter ways
              let byParameter : Outcome α × Bool :=
                if cs.isEmpty || next.isEmpty then (.missed, false)
                else
                  let value :=
                    if next.all (·.steps.isEmpty) then cs else cs.takeWhile (· ≠ '/')
                  search method fuel next (cs.drop value.length)
                    (values ++ [String.ofList value])
              let met := !here.isEmpty || metByChar
              match byParameter with
              | (.missed, metByParameter) =>
                  let ends := arrived (after .rest ways)
                  if ends.isEmpty then (.missed, met || metByParameter)
                  else
                    match forMethod? method ends with
                    | some way => (.found way (values ++ [String.ofList cs]), true)
                    | none => (.blocked, true)
              | (outcome, metByParameter) => (outcome, met || metByParameter)
          | (outcome, metByChar) => (outcome, !here.isEmpty || metByChar)

/-- The search for a path among ways. -/
def find (ways : List (Way α)) (method path : String) : Outcome α × Bool :=
  let depth := (ways.map (·.steps.length)).foldl max 0
  search method (path.length + depth + 1) ways path.toList []

end Way
end ScriptWeave
