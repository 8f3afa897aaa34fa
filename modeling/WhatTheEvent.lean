import WhatTheEvent.Library.Exec
import WhatTheEvent.Library.Loop
import WhatTheEvent.Buffer.Refinement
import WhatTheEvent.Buffer.CopyLaw
import WhatTheEvent.Buffer.Transparency
import WhatTheEvent.Library.Heap
import WhatTheEvent.Stream.Requests
import WhatTheEvent.Stream.Handler
import WhatTheEvent.Stream.RequestQueue
import WhatTheEvent.Stream.Basic
import WhatTheEvent.Stream.Transition
import WhatTheEvent.Stream.WriteSide
import WhatTheEvent.Stream.Outcomes
import WhatTheEvent.Stream.Received
import WhatTheEvent.Stream.ByteLaw
import WhatTheEvent.Blocking.Basic
import WhatTheEvent.Blocking.Read
import WhatTheEvent.EventLoop.Backlog
import WhatTheEvent.EventLoop.Represents
import WhatTheEvent.EventLoop.QueueLaw
import WhatTheEvent.Stream.Effect
import WhatTheEvent.Stream.Interest
import WhatTheEvent.Stream.Residue
import WhatTheEvent.Stream.Connecting
import WhatTheEvent.Stream.Closing
import WhatTheEvent.Stream.Freeing
import WhatTheEvent.Stream.SoleRequest
import WhatTheEvent.Blocking.Session
import WhatTheEvent.Blocking.Write
import WhatTheEvent.Blocking.Callbacks
import WhatTheEvent.Blocking.Finish
import WhatTheEvent.EventLoop.BaseEffect
import WhatTheEvent.EventLoop.Wakeup
import WhatTheEvent.EventLoop.Scheduling
import WhatTheEvent.EventLoop.Stopping
import WhatTheEvent.EventLoop.Serial
import WhatTheEvent.Buffer.Bounds
import WhatTheEvent.Buffer.PrependLaw
import WhatTheEvent.EventLoop.Deadlock
import WhatTheEvent.Stream.Silence
import WhatTheEvent.Stream.Queued
import WhatTheEvent.Stream.Assertion
import WhatTheEvent.Stream.WouldBlock
import WhatTheEvent.EventLoop.WeakQueue
import WhatTheEvent.EventLoop.Registration
import WhatTheEvent.EventLoop.Listener
import WhatTheEvent.Buffer.Conservation
import WhatTheEvent.Optional
import WhatTheEvent.Buffer.Linked
import WhatTheEvent.Buffer.Owned
import WhatTheEvent.Buffer.OwnedCalls
import WhatTheEvent.Buffer.WellLinked
import WhatTheEvent.EchoServer.RoundTrip
import WhatTheEvent.EventLoop.Timeout
import WhatTheEvent.Library.Lockstep
import WhatTheEvent.Stream.AsQueue
import WhatTheEvent.Library.Duplex
import WhatTheEvent.Stream.Outgoing
import WhatTheEvent.Stream.Peers
import WhatTheEvent.Stream.OnLoop
import WhatTheEvent.Blocking.Journal
import WhatTheEvent.EventLoop.RunOrder
import WhatTheEvent.EchoServer.BlockingClient
import WhatTheEvent.Blocking.Destroy
