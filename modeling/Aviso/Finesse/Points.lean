import Aviso.Finesse.ByteReader

namespace Aviso.Finesse

/-- The parsers between the operations of one `drain_lines`. -/
inductive DrainPoint : Parser → Parser → Prop where
  | entered (p : Parser) : DrainPoint p p
  | bomResolved (p : Parser) : DrainPoint p { p with lineSplitter := p.lineSplitter.resolveBom }
  | lineTaken (p : Parser) : DrainPoint p { p with lineSplitter := p.lineSplitter.nextLine.2 }
  | lineAccepted {p q : Parser} {line : List UInt8} {s : LineSplitter} {d : Dispatcher}
      {queue : List Frame} (taken : p.lineSplitter.nextLine = (.ok (some line), s))
      (accepted : Parser.acceptLine p.dispatcher p.queue line = .ok (d, queue))
      (later : DrainPoint { p with lineSplitter := s, dispatcher := d, queue := queue } q) :
      DrainPoint p q

/-- The parsers inside the loop of `feed` over the pieces of a chunk. -/
inductive FeedPoint : Parser → List (List UInt8) → Parser → Prop where
  | draining {p q : Parser} {piece : List UInt8} {rest : List (List UInt8)}
      (point : DrainPoint { p with lineSplitter := p.lineSplitter.feed piece } q) :
      FeedPoint p (piece :: rest) q
  | nextPiece {p next q : Parser} {piece : List UInt8} {rest : List (List UInt8)}
      (drained : Parser.drainLines { p with lineSplitter := p.lineSplitter.feed piece } =
        (.ok (), next))
      (later : FeedPoint next rest q) : FeedPoint p (piece :: rest) q

/-- The parsers at every point of every run: between two calls and inside `feed` and `end`. -/
inductive RunPoint (limits : Limits) : Parser → Prop where
  | between (ops : List Op) : RunPoint limits (Session.run limits ops).parser
  | feeding {q : Parser} (ops : List Op) (chunk : List UInt8)
      (running : (Session.run limits ops).parser.closed = false)
      (point : FeedPoint (Session.run limits ops).parser (pieces feedPieceBytes chunk) q) :
      RunPoint limits q
  | ending {q : Parser} (ops : List Op) (running : (Session.run limits ops).parser.closed = false)
      (point : DrainPoint { (Session.run limits ops).parser with
        lineSplitter := (Session.run limits ops).parser.lineSplitter.end } q) :
      RunPoint limits q

end Aviso.Finesse
