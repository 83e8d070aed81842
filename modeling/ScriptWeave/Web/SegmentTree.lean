/-!
Trees of route paths. A node holds the text that its paths share; its children are told apart by
their first characters, and at most one of them, the last, is a parameter. A parameter takes one
segment, and a rest everything after a slash. Paths that a tree could not tell apart are refused.
-/

namespace ScriptWeave

inductive SegmentKind where
  | root
  | static
  | parameter
  | rest
deriving DecidableEq, Repr

structure SegmentTree (α : Type) where
  kind : SegmentKind
  text : List Char
  /-- The first characters of the children that are not parameters. -/
  labels : List Char
  /-- Whether the last child is a parameter or a rest. -/
  wild : Bool
  /-- How many paths lead through the node. -/
  weight : Nat
  children : List (SegmentTree α)
  handler : Option α

namespace SegmentTree

variable {α : Type}

def empty : SegmentTree α := ⟨.static, [], [], false, 0, [], none⟩

/-- How many characters two texts share at their starts. -/
def sharedLength : List Char → List Char → Nat
  | a :: as, b :: bs => if a = b then sharedLength as bs + 1 else 0
  | _, _ => 0

/-- Adds a child; a parameter stays the last one. -/
def addChild (n : SegmentTree α) (child : SegmentTree α) : SegmentTree α :=
  if n.wild then
    { n with children := n.children.dropLast ++ child :: n.children.drop (n.children.length - 1) }
  else { n with children := n.children ++ [child] }

/-- Raises the weight of a child and moves it in front of lighter ones; tells its new place. -/
def raise (n : SegmentTree α) (place : Nat) : SegmentTree α × Nat :=
  match n.children[place]? with
  | none => (n, place)
  | some child =>
      let raised := { child with weight := child.weight + 1 }
      let before := n.children.take place
      let lighter :=
        (before.reverse.takeWhile fun other => decide (other.weight < raised.weight)).length
      let target := place - lighter
      let move {β : Type} (xs : List β) (x : List β) : List β :=
        xs.take target ++ x ++ (xs.take place).drop target ++ xs.drop (place + 1)
      ({ n with children := move n.children [raised],
                labels := move n.labels ((n.labels.drop place).take 1) }, target)

def setChild (n : SegmentTree α) (place : Nat) (child : SegmentTree α) : SegmentTree α :=
  { n with children := n.children.set place child }

/-- Where the first parameter or rest of a path starts. Only colons may be escaped. -/
def wildcardStart : List Char → Except Unit (Option Nat)
  | [] => .ok none
  | ['\\'] => .ok none
  | '\\' :: ':' :: cs => (wildcardStart cs).map (·.map (· + 2))
  | c :: cs =>
      if c = '\\' then .error ()
      else if c = ':' ∨ c = '*' then .ok (some 0)
      else (wildcardStart cs).map (·.map (· + 1))

/-- Why a path is refused. -/
inductive Conflict where
  | escape (path : List Char)
  | severalWildcards (wildcard : List Char)
  | unnamed
  | restNotLast
  | restAfterSegment (wildcard segment stem : List Char)
  | restWithoutSlash
  | wildcard (segment existing : List Char)
  | duplicate
deriving DecidableEq, Repr

/-- The message about a path that is refused. -/
def Conflict.message (path : List Char) : Conflict → String
  | escape part => "invalid escape string in path '" ++ String.ofList part ++ "'"
  | severalWildcards w =>
      "only one wildcard per path segment is allowed, has: '" ++ String.ofList w ++ "' in path '" ++
        String.ofList path ++ "'"
  | unnamed =>
      "wildcards must be named with a non-empty name in path '" ++ String.ofList path ++ "'"
  | restNotLast =>
      "catch-all routes are only allowed at the end of the path in path '" ++
        String.ofList path ++ "'"
  | restAfterSegment w segment stem =>
      "catch-all wildcard '" ++ String.ofList w ++ "' in new path '" ++ String.ofList path ++
        "' conflicts with existing path segment '" ++ String.ofList segment ++
        "' in existing prefix '" ++ String.ofList (stem ++ segment) ++ "'"
  | restWithoutSlash => "no / before catch-all in path '" ++ String.ofList path ++ "'"
  | wildcard segment existing =>
      "'" ++ String.ofList segment ++ "' in new path '" ++ String.ofList path ++
        "' conflicts with existing wildcard '" ++ String.ofList existing ++
        "' in existing prefix '" ++
        String.ofList (path.take (stemLength segment path) ++ existing) ++ "'"
  | duplicate => "handlers are already registered for path '" ++ String.ofList path ++ "'"
where
  /-- How many characters stand before the first occurrence of a part. -/
  stemLength (part : List Char) : List Char → Nat
    | [] => 0
    | c :: cs => if part.isPrefixOf (c :: cs) then 0 else stemLength part cs + 1

/-- The characters before the first slash. -/
def segmentOf (cs : List Char) : List Char := cs.takeWhile (· ≠ '/')

/-- Puts a path below a node that has nothing in common with it. -/
def graft (handler : α) : Nat → SegmentTree α → List Char → Except Conflict (SegmentTree α)
  | 0, _, path => .error (.escape path)
  | fuel + 1, n, path => do
      match wildcardStart path with
      | .error _ => .error (.escape path)
      | .ok none => return { n with text := path, handler := some handler }
      | .ok (some i) =>
          let w := segmentOf (path.drop i)
          if (w.drop 1).any fun c => c = ':' || c = '*' then .error (.severalWildcards w)
          if w.length < 2 then .error .unnamed
          if w.head? = some ':' then
            let n := if i = 0 then n else { n with text := path.take i }
            let rest := path.drop (i + w.length)
            let child : SegmentTree α := { empty with kind := .parameter, text := w, weight := 1 }
            let child ←
              if rest.isEmpty then pure { child with handler := some handler }
              else do
                let below ← graft handler fuel { empty with weight := 1 } rest
                pure (child.addChild below)
            return { n.addChild child with wild := true }
          else
            if i + w.length ≠ path.length then .error .restNotLast
            if n.text.getLast? = some '/' then
              .error (.restAfterSegment path (segmentOf ((n.children.head?.map (·.text)).getD []))
                n.text)
            if i = 0 ∨ path[i - 1]? ≠ some '/' then .error .restWithoutSlash
            let leaf : SegmentTree α :=
              { empty with kind := .rest, text := path.drop (i - 1), weight := 1,
                           handler := some handler }
            let child : SegmentTree α :=
              { empty with kind := .rest, wild := true, weight := 1, children := [leaf] }
            return { ({ n with text := path.take (i - 1) } : SegmentTree α).addChild child with
              labels := ['/'] }

/-- Cuts the text of a node in two; the second part gets all that the node had. -/
def cutText (n : SegmentTree α) (length : Nat) : SegmentTree α :=
  if length < n.text.length then
    let child := { n with kind := .static, text := n.text.drop length, weight := n.weight - 1 }
    { n with text := n.text.take length, labels := (n.text.drop length).take 1, wild := false,
             children := [child], handler := none }
  else n

/-- Whether a path goes on through a parameter. -/
def isContinuedBy (n : SegmentTree α) (path : List Char) : Bool :=
  n.kind ≠ .rest && n.text.isPrefixOf path &&
    (path.drop n.text.length).head?.all (· = '/')

/-- Adds a path below a node. -/
def addBelow (handler : α) : Nat → SegmentTree α → List Char → Except Conflict (SegmentTree α)
  | 0, _, _ => .error .duplicate
  | fuel + 1, n, path => do
      let shared := sharedLength path n.text
      let n := n.cutText shared
      match path.drop shared with
      | [] =>
          if n.handler.isSome then .error .duplicate
          else return { n with handler := some handler }
      | c :: rest =>
          let path := c :: rest
          match n.kind, c, n.children with
          | .parameter, '/', [child] =>
              let child ← addBelow handler fuel { child with weight := child.weight + 1 } path
              return { n with children := [child] }
          | _, _, _ =>
              match n.labels.findIdx? (· = c) with
              | some place =>
                  let (n, place) := n.raise place
                  match n.children[place]? with
                  | some child => return n.setChild place (← addBelow handler fuel child path)
                  | none => return n
              | none =>
                  if c ≠ ':' ∧ c ≠ '*' ∧ n.kind ≠ .rest then
                    let below ← graft handler (path.length + 1) empty path
                    let n := { n with labels := n.labels ++ [c] }.addChild below
                    return (n.raise (n.labels.length - 1)).1
                  else if n.wild then
                    let place := n.children.length - 1
                    match n.children[place]? with
                    | some child =>
                        if child.isContinuedBy path then
                          return n.setChild place
                            (← addBelow handler fuel { child with weight := child.weight + 1 } path)
                        else
                          .error (.wildcard (if child.kind = .rest then path else segmentOf path)
                            child.text)
                    | none => return n
                  else graft handler (path.length + 1) n path

/-- Adds a path to a tree, or tells why it cannot be added. -/
def add (n : SegmentTree α) (path : String) (handler : α) : Except String (SegmentTree α) :=
  let cs := path.toList
  let n := { n with weight := n.weight + 1 }
  let added :=
    if n.text.isEmpty && n.children.isEmpty then
      (graft handler (cs.length + 1) n cs).map fun n => { n with kind := .root }
    else addBelow handler (2 * cs.length + 2) n cs
  match added with
  | .ok n => .ok n
  | .error conflict => .error (conflict.message cs)

/-- The result of a search. -/
inductive Found (α : Type) where
  | handler (handler : α) (values : List (String × String))
  /-- Nothing, unless a slash at the end is added or removed. -/
  | nothing (slashHelps : Bool)

/-- How the search below a node ends: for good, or only if there is no parameter to be tried instead
of a node further up. -/
inductive Outcome (α : Type) where
  | settled (found : Found α)
  | open (found : Found α)

/-- What a node has for a path that ends there. -/
def foundAtEnd (n : SegmentTree α) (path : List Char) (values : List (String × String)) : Found α :=
  match n.handler with
  | some h => .handler h values
  | none =>
      if path = ['/'] && ((n.wild && n.kind ≠ .root) || n.kind = .static) then .nothing true
      else
        match (n.labels.findIdx? (· = '/')).bind fun place => n.children[place]? with
        | some child => .nothing ((child.text.length = 1 && child.handler.isSome) ||
            (child.kind = .rest && (child.children.head?.bind (·.handler)).isSome))
        | none => .nothing false

/-- The search below a node. Characters come before a parameter; a parameter is only tried
afterwards. -/
def search : Nat → SegmentTree α → List Char → List (String × String) → Outcome α
  | 0, _, _, _ => .settled (.nothing false)
  | fuel + 1, n, path, values =>
      if n.text.length < path.length && n.text.isPrefixOf path then
        let rest := path.drop n.text.length
        let byLabel := (n.labels.findIdx? fun c => rest.head? = some c).bind (n.children[·]?)
        let byWildcard : Outcome α :=
          match n.children.getLast? with
          | none => .settled (.nothing false)
          | some child =>
              if child.kind = .rest then
                match child.handler with
                | some h => .settled (.handler h
                    (values ++ [(String.ofList (child.text.drop 2), String.ofList rest)]))
                | none => .settled (.nothing false)
              else
                let value := segmentOf rest
                let values := values ++ [(String.ofList (child.text.drop 1), String.ofList value)]
                match rest.drop value.length, child.children with
                | [], _ =>
                    match child.handler, child.children with
                    | some h, _ => .settled (.handler h values)
                    | none, [below] =>
                        .settled (.nothing ((below.text = ['/'] && below.handler.isSome) ||
                          (below.text.isEmpty && below.labels = ['/'])))
                    | none, _ => .settled (.nothing false)
                | more, below :: _ => search fuel below more values
                | more, [] => .settled (.nothing (more.length = 1))
        match byLabel with
        | some child =>
            match search fuel child rest values with
            | .open found => if n.wild then byWildcard else .open found
            | settled => settled
        | none =>
            if n.wild then byWildcard
            else if rest = ['/'] then .settled (.nothing n.handler.isSome)
            else .open (.nothing false)
      else if path = n.text then
        let found := n.foundAtEnd path values
        if n.handler.isNone && path ≠ ['/'] then .open found else .settled found
      else
        let slashHelps := path = ['/'] || (n.text = path ++ ['/'] && n.handler.isSome)
        if slashHelps then .settled (.nothing true) else .open (.nothing false)

/-- What a tree has for a path. -/
def find (n : SegmentTree α) (path : String) : Found α :=
  match search (2 * path.length + 4) n path.toList [] with
  | .settled found | .open found => found

end SegmentTree
end ScriptWeave
