import Shb.Lib.Bytes

/-!
# What a request says

The fields of a request as a server should see them, whichever version of HTTP carries it. The
header blocks of HTTP/2 and HTTP/3 are both compared with this.
-/

namespace Shb

open Lib

/-- A field by its name and value. -/
def field (name value : String) : Bytes × Bytes := (asBytes name, asBytes value)

/-- The fields of a request, in order. -/
def requestFields (method scheme authority path : String) (headers : List (String × String))
    (bodyLen : Nat) : List (Bytes × Bytes) :=
  [field ":method" method, field ":scheme" scheme, field ":authority" authority,
      field ":path" path] ++ headers.map (fun header => field header.1 header.2) ++
    if 0 < bodyLen then [field "content-length" (toString bodyLen)] else []

end Shb
