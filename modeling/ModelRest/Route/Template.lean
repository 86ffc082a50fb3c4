import ModelRest.Text.Span

/-!
# Route templates

A template is a path some of whose segments are parameters. A parameter is written `:name` or, in a
bound path, as the name in braces; `convert` turns the one into the other. The shape of a path is
the path without the names of its parameters: two paths of one shape match the same requests.
-/

namespace ModelRest.Template

/-- A parameter of that name, as a segment of a bound path. -/
def parameter (name : List Char) : List Char := '\x7b' :: (name ++ ['\x7d'])

/-- A segment of a template as it is bound; a colon alone is no parameter. -/
def convertSegment : List Char → List Char
  | ':' :: c :: name => parameter (c :: name)
  | segment => segment

/-- The bound path of a template. -/
def convert (template : List Char) : List Char :=
  Text.join '/' ((Text.splitAll '/' template).map convertSegment)

/-- The name of the parameter that a segment of a bound path is. -/
def parameterName? : List Char → Option (List Char)
  | '\x7b' :: rest =>
    match rest.getLast? with
    | some '\x7d' => some rest.dropLast
    | _ => none
  | _ => none

/-- A segment without the name of its parameter. -/
def eraseName (segment : List Char) : List Char :=
  match parameterName? segment with
  | some _ => parameter []
  | none => segment

/-- The shape of a bound path. -/
def shape (path : List Char) : List Char :=
  Text.join '/' ((Text.splitAll '/' path).map eraseName)

end ModelRest.Template
